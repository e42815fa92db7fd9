import BlockPool.Report
import Mathlib.Data.List.Basic

/-!
# Reading reports

Names of groups are free text, and a name may look like any other part of a report. A report can be
read all the same. The totals stand in front of all names. The line of a group with its reserved
bytes is read from its end: the share and the reserved bytes are made of other characters than what
stands in front of them, and what is left at last is the name. With the names known, the lines with
the blocks are read from the front.

Main statement: if the reports on two snapshots are the same text, and no name has a line end in
it, then the snapshots have the same totals and, group by group, the same name, the same reserved
bytes and the same blocks as far as a report shows them.
-/

namespace BlockPool

/-! ## Cutting texts -/

/-- A text is cut in one way at its first character that is not of a kind. -/
lemma first_unique {kind : Char → Prop} {x y a b : List Char} {c d : Char}
    (hx : ∀ k ∈ x, kind k) (hy : ∀ k ∈ y, kind k) (hc : ¬ kind c) (hd : ¬ kind d)
    (h : x ++ c :: a = y ++ d :: b) : x = y ∧ a = b := by
  induction x generalizing y with
  | nil =>
    cases y with
    | nil => exact ⟨rfl, (List.cons.inj h).2⟩
    | cons k y => exact absurd (hy k List.mem_cons_self) ((List.cons.inj h).1 ▸ hc)
  | cons k x ih =>
    cases y with
    | nil => exact absurd (hx k List.mem_cons_self) ((List.cons.inj h).1 ▸ hd)
    | cons k' y =>
      obtain ⟨rfl, hrest⟩ := List.cons.inj h
      obtain ⟨rfl, hab⟩ := ih (fun c hc => hx c (List.mem_cons_of_mem k hc))
        (fun c hc => hy c (List.mem_cons_of_mem k hc)) hrest
      exact ⟨rfl, hab⟩

/-- A text is cut in one way at its last character that is not of a kind. -/
lemma last_unique {kind : Char → Prop} {x y a b : List Char} {c d : Char}
    (hx : ∀ k ∈ x, kind k) (hy : ∀ k ∈ y, kind k) (hc : ¬ kind c) (hd : ¬ kind d)
    (h : a ++ c :: x = b ++ d :: y) : a = b ∧ x = y := by
  have hreverse : x.reverse ++ c :: a.reverse = y.reverse ++ d :: b.reverse := by
    simpa using congrArg List.reverse h
  obtain ⟨hxy, hab⟩ := first_unique (fun k hk => hx k (List.mem_reverse.1 hk))
    (fun k hk => hy k (List.mem_reverse.1 hk)) hc hd hreverse
  exact ⟨List.reverse_injective hab, List.reverse_injective hxy⟩

/-- Parts that are written one behind the other are read one after the other, if each of them can
be read from the front with the help of what is known of it. -/
lemma flatMap_unique {α β γ : Type} {write : α → List Char} (known : α → β) (shown : α → γ)
    {us vs : List α} {a b : List Char}
    (hread : ∀ u ∈ us, ∀ v ∈ vs, known u = known v → ∀ a b, write u ++ a = write v ++ b →
      shown u = shown v ∧ a = b)
    (hknown : us.map known = vs.map known)
    (h : us.flatMap write ++ a = vs.flatMap write ++ b) : us.map shown = vs.map shown ∧ a = b := by
  induction us generalizing vs with
  | nil =>
    obtain rfl : vs = [] := List.map_eq_nil_iff.1 hknown.symm
    exact ⟨rfl, h⟩
  | cons u us ih =>
    cases vs with
    | nil => exact absurd hknown (by simp)
    | cons v vs =>
      obtain ⟨hhead, htail⟩ := List.cons.inj hknown
      rw [List.flatMap_cons, List.flatMap_cons, List.append_assoc, List.append_assoc] at h
      obtain ⟨hshown, hrest⟩ := hread u List.mem_cons_self v List.mem_cons_self hhead _ _ h
      obtain ⟨hshowns, hab⟩ := ih (fun u' hu v' hv =>
        hread u' (List.mem_cons_of_mem u hu) v' (List.mem_cons_of_mem v hv)) htail hrest
      exact ⟨by rw [List.map_cons, List.map_cons, hshown, hshowns], hab⟩

/-! ## Numbers -/

lemma toList_toString (n : Nat) : (toString n).toList = Nat.toDigits 10 n :=
  Nat.toList_repr

lemma isDigit_of_mem_toDigits {n : Nat} {c : Char} (h : c ∈ Nat.toDigits 10 n) :
    c.isDigit = true :=
  Nat.isDigit_of_mem_toDigits (by decide) (by decide) h

lemma toDigits_inj {m n : Nat} (h : Nat.toDigits 10 m = Nat.toDigits 10 n) : m = n := by
  rw [← Nat.ofDigitChars_ten_toDigits (n := m), h, Nat.ofDigitChars_ten_toDigits]

/-- A number is read from the front if another character than a digit stands behind it. -/
lemma number_unique {m n : Nat} {c : Char} {a b : List Char} (hc : ¬ c.isDigit = true)
    (h : Nat.toDigits 10 m ++ c :: a = Nat.toDigits 10 n ++ c :: b) : m = n ∧ a = b := by
  obtain ⟨hmn, hab⟩ := first_unique (fun _ => isDigit_of_mem_toDigits)
    (fun _ => isDigit_of_mem_toDigits) hc hc h
  exact ⟨toDigits_inj hmn, hab⟩

/-- What `oneDecimal` writes is made of digits and a dot. -/
lemma Number.Binary.isDigit_or_dot_of_mem {n : Binary} {c : Char}
    (h : c ∈ n.oneDecimal.toList) : c.isDigit = true ∨ c = '.' := by
  have htext : ∀ whole tenths : Nat, (s!"{whole}.{tenths}").toList =
      Nat.toDigits 10 whole ++ '.' :: Nat.toDigits 10 tenths := by
    intro whole tenths
    show (toString whole ++ "." ++ toString tenths).toList = _
    simp only [String.toList_append, toList_toString, List.append_assoc]
    rfl
  unfold oneDecimal at h
  rw [htext, List.mem_append, List.mem_cons] at h
  rcases h with hwhole | rfl | htenths
  · exact .inl (isDigit_of_mem_toDigits hwhole)
  · exact .inr rfl
  · exact .inl (isDigit_of_mem_toDigits htenths)

/-! ## What a report shows -/

/-- What a report shows of a block: the bytes in slots and the longest free run. -/
def BlockUsage.shown (u : BlockUsage) : Nat × Nat := (u.reserved, u.largestRun)

/-- The name of a group and the bytes in its slots. -/
def GroupUsage.account (u : GroupUsage) : String × Nat := (u.name, u.reserved)

/-- What a report shows of a group: its `account`, and `BlockUsage.shown` of its blocks. -/
def GroupUsage.shown (u : GroupUsage) : (String × Nat) × List (Nat × Nat) :=
  (u.account, u.blocks.map BlockUsage.shown)

namespace Usage

variable {u v : GroupUsage} {whole : Nat} {a b : List Char}

/-! ## Lines with reserved bytes -/

/-- The line of a group with its reserved bytes and their share by `shareText`, without the line
end. -/
def usedText (whole : Nat) (u : GroupUsage) : List Char :=
  u.name.toList ++ " used = ".toList ++ Nat.toDigits 10 u.reserved ++
    (shareText u.reserved whole).toList

lemma toList_usedLine (whole : Nat) (u : GroupUsage) :
    (usedLine whole u).toList = usedText whole u ++ ['\n'] := by
  show (u.name ++ " used = " ++ toString u.reserved ++ shareText u.reserved whole ++
    "\n").toList = _
  simp only [String.toList_append, toList_toString]
  rfl

/-- `shareText` writes digits and a dot between two texts. -/
lemma exists_percent (part : Nat) (h : 0 < whole) : ∃ percent : List Char,
    (∀ k ∈ percent, k.isDigit = true ∨ k = '.') ∧
      (shareText part whole).toList = ',' :: ' ' :: (percent ++ "% of total used".toList) := by
  refine ⟨(share part whole).oneDecimal.toList, fun _ => Number.Binary.isDigit_or_dot_of_mem, ?_⟩
  rw [shareText, if_pos h]
  -- of the number, only its text matters here
  generalize (share part whole).oneDecimal = percent
  show (", " ++ percent ++ "% of total used").toList = _
  simp only [String.toList_append, List.append_assoc]
  rfl

/-- Of nothing, `shareText` writes no share. -/
lemma shareText_zero (part : Nat) (h : ¬ 0 < whole) : shareText part whole = "" := by
  rw [shareText, if_neg h]

lemma newline_not_mem_shareText (part whole : Nat) : '\n' ∉ (shareText part whole).toList := by
  by_cases h : 0 < whole
  · obtain ⟨percent, hpercent, htext⟩ := exists_percent part h
    rw [htext, List.mem_cons, List.mem_cons, List.mem_append]
    rintro (hc | hc | hmem | hrest)
    · exact absurd hc (by decide)
    · exact absurd hc (by decide)
    · exact absurd (hpercent _ hmem) (by decide)
    · exact absurd hrest (by decide)
  · rw [shareText_zero part h]
    decide

lemma newline_not_mem_usedText (h : '\n' ∉ u.name.toList) : '\n' ∉ usedText whole u := by
  unfold usedText
  rw [List.mem_append, List.mem_append, List.mem_append]
  rintro (((hname | hused) | hreserved) | hshare)
  · exact h hname
  · exact absurd hused (by decide)
  · exact absurd (isDigit_of_mem_toDigits hreserved) (by decide)
  · exact newline_not_mem_shareText _ _ hshare

/-- What `shareText` writes at the end of a text is told from what stands in front of it. -/
lemma share_unique {part part' : Nat}
    (h : a ++ (shareText part whole).toList = b ++ (shareText part' whole).toList) : a = b := by
  by_cases hwhole : 0 < whole
  · obtain ⟨percent, hpercent, htext⟩ := exists_percent part hwhole
    obtain ⟨percent', hpercent', htext'⟩ := exists_percent part' hwhole
    have hcut : ((a ++ [',']) ++ ' ' :: percent) ++ "% of total used".toList =
        ((b ++ [',']) ++ ' ' :: percent') ++ "% of total used".toList := by
      simpa [htext, htext'] using h
    obtain ⟨hcomma, -⟩ := last_unique hpercent hpercent' (by decide) (by decide)
      (List.append_cancel_right hcut)
    exact List.append_cancel_right hcomma
  · rw [shareText_zero part hwhole, shareText_zero part' hwhole] at h
    exact List.append_cancel_right h

/-- `usedText` is read from its end: the name of the group may be any text. -/
lemma usedText_unique (h : usedText whole u = usedText whole v) : u.account = v.account := by
  have hplain : (u.name.toList ++ " used =".toList) ++ ' ' :: Nat.toDigits 10 u.reserved =
      (v.name.toList ++ " used =".toList) ++ ' ' :: Nat.toDigits 10 v.reserved := by
    simpa using share_unique h
  obtain ⟨hname, hreserved⟩ := last_unique (fun _ => isDigit_of_mem_toDigits)
    (fun _ => isDigit_of_mem_toDigits) (by decide) (by decide) hplain
  exact Prod.ext (String.toList_inj.1 (List.append_cancel_right hname)) (toDigits_inj hreserved)

/-- `usedLine` is read from the front up to its line end, which no name has in it. -/
lemma usedLine_unique (hu : '\n' ∉ u.name.toList) (hv : '\n' ∉ v.name.toList)
    (h : (usedLine whole u).toList ++ a = (usedLine whole v).toList ++ b) :
    u.account = v.account ∧ a = b := by
  have hline : usedText whole u ++ '\n' :: a = usedText whole v ++ '\n' :: b := by
    simpa [toList_usedLine] using h
  -- the first line end is that of the line, as the name has none
  have hends : ∀ {w : GroupUsage}, '\n' ∉ w.name.toList → ∀ k ∈ usedText whole w, k ≠ '\n' :=
    fun hw k hk hc => newline_not_mem_usedText hw (hc ▸ hk)
  obtain ⟨htext, hab⟩ := first_unique (hends hu) (hends hv) (by simp) (by simp) hline
  exact ⟨usedText_unique htext, hab⟩

/-! ## Lines with blocks -/

lemma toList_blockText (u : BlockUsage) (a : List Char) : (blockText u).toList ++ a =
    " [used = ".toList ++ (Nat.toDigits 10 u.reserved ++ ',' ::
      (" avail = ".toList ++ (Nat.toDigits 10 u.largestRun ++ ']' :: a))) := by
  show (" [used = " ++ toString u.reserved ++ ", avail = " ++ toString u.largestRun ++
    "]").toList ++ a = _
  simp only [String.toList_append, toList_toString, List.append_assoc]
  rfl

/-- `blockText` is read from the front. -/
lemma blockText_unique {u v : BlockUsage}
    (h : (blockText u).toList ++ a = (blockText v).toList ++ b) :
    u.shown = v.shown ∧ a = b := by
  rw [toList_blockText, toList_blockText] at h
  obtain ⟨hreserved, h⟩ := number_unique (by decide) (List.append_cancel_left h)
  obtain ⟨hlargest, h⟩ := number_unique (by decide) (List.append_cancel_left h)
  exact ⟨Prod.ext hreserved hlargest, h⟩

lemma toList_blocksLine (u : GroupUsage) (a : List Char) : (blocksLine u).toList ++ a =
    u.name.toList ++ ' ' :: (Nat.toDigits 10 u.blocks.length ++ ' ' :: ("blocks".toList ++
      (u.blocks.flatMap (fun b => (blockText b).toList) ++ '\n' :: a))) := by
  show (u.name ++ " " ++ toString u.blocks.length ++ " blocks" ++
    String.join (u.blocks.map blockText) ++ "\n").toList ++ a = _
  simp only [String.toList_append, toList_toString, String.toList_join, List.flatMap_map,
    List.append_assoc]
  rfl

/-- With the name known, `blocksLine` is read from the front: the number of blocks tells where the
blocks stop. -/
lemma blocksLine_unique (haccount : u.account = v.account)
    (h : (blocksLine u).toList ++ a = (blocksLine v).toList ++ b) :
    u.shown = v.shown ∧ a = b := by
  have hname : u.name = v.name := congrArg Prod.fst haccount
  rw [toList_blocksLine, toList_blocksLine, hname] at h
  obtain ⟨-, h⟩ := List.cons.inj (List.append_cancel_left h)
  obtain ⟨hcount, h⟩ := number_unique (by decide) h
  obtain ⟨hblocks, h⟩ := flatMap_unique (fun _ => ()) BlockUsage.shown
    (fun _ _ _ _ _ _ _ => blockText_unique) (by simp [List.map_const', hcount])
    (List.append_cancel_left h)
  exact ⟨Prod.ext haccount hblocks, (List.cons.inj h).2⟩

/-! ## Reports -/

lemma toList_report (u : Usage) : u.report.toList =
    "allocator report: ".toList ++ (Nat.toDigits 10 u.groups.length ++ ' ' ::
      ("groups\ntotal available = ".toList ++ (Nat.toDigits 10 u.available ++ ',' ::
      (" total reserved = ".toList ++ (Nat.toDigits 10 u.reserved ++ ',' ::
      (" total memory = ".toList ++ (Nat.toDigits 10 u.memorySize ++ '\n' ::
      (u.groups.flatMap (fun g => (usedLine u.reserved g).toList) ++
        u.groups.flatMap (fun g => (blocksLine g).toList))))))))) := by
  show ("allocator report: " ++ toString u.groups.length ++ " groups\n" ++
    ("total available = " ++ toString u.available ++ ", total reserved = " ++
      toString u.reserved ++ ", total memory = " ++ toString u.memorySize ++ "\n") ++
    String.join (u.groups.map (usedLine u.reserved)) ++
    String.join (u.groups.map blocksLine)).toList = _
  simp only [String.toList_append, toList_toString, String.toList_join, List.flatMap_map,
    List.append_assoc]
  rfl

/-- If the `report` on two snapshots is the same text, and no name of a group has a line end in it,
then the snapshots have as many groups and the same `totals`, and what is `shown` of each group and
of each of its blocks is the same. -/
theorem report_unambiguous {u v : Usage} (hu : ∀ g ∈ u.groups, '\n' ∉ g.name.toList)
    (hv : ∀ g ∈ v.groups, '\n' ∉ g.name.toList) (h : u.report = v.report) :
    u.groups.length = v.groups.length ∧ u.totals = v.totals ∧
      u.groups.map GroupUsage.shown = v.groups.map GroupUsage.shown := by
  have htext := congrArg String.toList h
  rw [toList_report, toList_report] at htext
  -- the numbers in front of the lines, each between two texts
  obtain ⟨hcount, htext⟩ := number_unique (by decide) (List.append_cancel_left htext)
  obtain ⟨havailable, htext⟩ := number_unique (by decide) (List.append_cancel_left htext)
  obtain ⟨hreserved, htext⟩ := number_unique (by decide) (List.append_cancel_left htext)
  obtain ⟨hmemory, htext⟩ := number_unique (by decide) (List.append_cancel_left htext)
  rw [hreserved] at htext
  -- the number of groups tells where the lines with blocks start
  obtain ⟨haccounts, htext⟩ := flatMap_unique (fun _ => ()) GroupUsage.account
    (fun g hg g' hg' _ _ _ => usedLine_unique (hu g hg) (hv g' hg'))
    (by simp [List.map_const', hcount]) htext
  -- the names read there are known in the lines with blocks
  obtain ⟨hshown, -⟩ := flatMap_unique (a := []) (b := []) GroupUsage.account GroupUsage.shown
    (fun _ _ _ _ haccount _ _ => blocksLine_unique haccount) haccounts (by simpa using htext)
  exact ⟨hcount, by simp [totals, havailable, hreserved, hmemory], hshown⟩

/-- A group with a name that looks like the rest of a line. -/
def lookalike (base : Nat) : GroupUsage where
  affinity := .data
  name := "data used = 1, 5.0% of total used"
  blockSize := 16
  alignment := 16
  blocks := [⟨base, 16, 8, 8, 8, 1⟩]

/-- Where a block is does not stand in a report. -/
theorem report_unambiguous_lookalike :
    let u : Usage := ⟨[lookalike 4096]⟩
    let v : Usage := ⟨[lookalike 8192]⟩
    '\n' ∉ (lookalike 4096).name.toList ∧ u.report = v.report ∧ u ≠ v ∧
      u.groups.map GroupUsage.shown = v.groups.map GroupUsage.shown :=
  ⟨by decide, rfl, by decide, (report_unambiguous (by decide) (by decide) rfl).2.2⟩

end Usage

end BlockPool
