import ArchiveOverlay.Text.CasedTable
import ArchiveOverlay.Text.CaseIgnorableTable
import ArchiveOverlay.Text.LowerTable

namespace ArchiveOverlay.Text

def isCased (c : Char) : Bool :=
  inRanges c.toNat casedRanges

def isCaseIgnorable (c : Char) : Bool :=
  inRanges c.toNat caseIgnorableRanges

/-- The small form of one character, out of context. Only the dotted capital `İ` needs two. -/
def lowerChar (c : Char) : List Char :=
  if c.toNat < 0x80 then [c.toLower]
  else if c.toNat = 0x130 then ['i', Char.ofNat 0x307]
  else
    match partner? c.toNat lowerRuns with
    | some n => [Char.ofNat n]
    | none => [c]

/-- Whether the first character that case rules do not look through has a case. -/
def startsCased : List Char → Bool
  | [] => false
  | c :: rest => if isCaseIgnorable c then startsCased rest else isCased c

/-- The small forms of a text, where `afterCased` says whether a cased letter stands before it. A
sigma that ends a word takes its final form. -/
def lowerFrom (afterCased : Bool) : List Char → List Char
  | [] => []
  | c :: rest =>
    let small :=
      if c = 'Σ' then
        if afterCased && !startsCased rest then ['ς'] else ['σ']
      else lowerChar c
    small ++ lowerFrom (if isCaseIgnorable c then afterCased else isCased c) rest

/-- A text in small letters: how paths and archive names are compared. -/
def lowercase (s : String) : String :=
  String.ofList (lowerFrom false s.toList)

end ArchiveOverlay.Text
