namespace ArchiveOverlay.Ordered

/-- Puts a row into a list that is strictly ascending in `before`. A row that is neither before nor
after it takes the new one in. -/
def upsert {α : Type} (before : α → α → Bool) (merge : α → α → α) (x : α) : List α → List α
  | [] => [x]
  | y :: rest =>
    if before x y then x :: y :: rest
    else if before y x then y :: upsert before merge x rest
    else merge y x :: rest

/-- The rows in ascending order, where rows in the same place are merged as they come. -/
def collect {α : Type} (before : α → α → Bool) (merge : α → α → α) (rows : List α) : List α :=
  rows.foldl (fun sorted x => upsert before merge x sorted) []

end ArchiveOverlay.Ordered
