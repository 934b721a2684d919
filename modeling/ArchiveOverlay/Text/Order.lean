namespace ArchiveOverlay.Text

/-- Strict order by code points, a shorter text before its continuations. The UTF-8 bytes of two
texts are in the same order. -/
def precedes : List Char → List Char → Bool
  | _, [] => false
  | [], _ :: _ => true
  | a :: s, b :: t =>
    if a.toNat < b.toNat then true
    else if b.toNat < a.toNat then false
    else precedes s t

def before (s t : String) : Bool :=
  precedes s.toList t.toList

/-- The earlier of two texts. -/
def earlier (s t : String) : String :=
  if before t s then t else s

end ArchiveOverlay.Text
