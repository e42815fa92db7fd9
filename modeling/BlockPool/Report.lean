import BlockPool.Number.Binary
import BlockPool.Usage

/-!
# Reports

The books of an allocator as text: the totals, then a line for each group with its share of the
reserved bytes, then a line for each group with its blocks.
-/

namespace BlockPool.Usage

open Number (Binary)

/-- A number of bytes in percent of another one, as a `Binary` number. -/
def share (part whole : Nat) : Binary :=
  ((Binary.ofNat part).div (Binary.ofNat whole)).mul (Binary.ofNat 100)

/-- The `share` of a group in all reserved bytes, if there are any. -/
def shareText (part whole : Nat) : String :=
  if 0 < whole then
    let percent := (share part whole).oneDecimal
    s!", {percent}% of total used"
  else ""

/-- The line of a group with its reserved bytes. -/
def usedLine (total : Nat) (u : GroupUsage) : String :=
  let name := u.name
  let reserved := u.reserved
  let share := shareText reserved total
  s!"{name} used = {reserved}{share}\n"

/-- A block as it stands in the line of its group. -/
def blockText (u : BlockUsage) : String :=
  let reserved := u.reserved
  let largest := u.largestRun
  s!" [used = {reserved}, avail = {largest}]"

/-- The line of a group with its blocks. -/
def blocksLine (u : GroupUsage) : String :=
  let name := u.name
  let count := u.blocks.length
  let blocks := String.join (u.blocks.map blockText)
  s!"{name} {count} blocks{blocks}\n"

/-- The report on an allocator. -/
def report (u : Usage) : String :=
  let count := u.groups.length
  let available := u.available
  let reserved := u.reserved
  let memory := u.memorySize
  s!"allocator report: {count} groups\n" ++
    s!"total available = {available}, total reserved = {reserved}, total memory = {memory}\n" ++
    String.join (u.groups.map (usedLine reserved)) ++
    String.join (u.groups.map blocksLine)

/-- The characters of a text that begin within its first bytes. One that does not end there either
is shown as a replacement character. -/
def cut : Nat → List Char → List Char
  | _, [] => []
  | 0, _ => []
  | room, c :: rest =>
    if c.utf8Size ≤ room then c :: cut (room - c.utf8Size) rest else ['\ufffd']

/-- The report as it is written where only `limit` bytes fit, and whether all of it does. -/
def reportWithin (u : Usage) (limit : Nat) : String × Bool :=
  let text := u.report
  if text.utf8ByteSize ≤ limit then (text, true)
  else (String.ofList (cut limit text.toList), false)

end BlockPool.Usage
