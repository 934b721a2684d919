import ArchiveOverlay.Inflate.Delivery
import ArchiveOverlay.Proofs.Extract.Streaming
import Mathlib.Algebra.GroupWithZero.Nat

/-!
How decoded bytes arrive. Every piece has bytes in it, all of them from the decoded output, and
there are two faults only: bits that break the rules, and input that ends too early.
-/

namespace ArchiveOverlay

/-- A source whose readings all bring bytes, so that its fault is met. -/
def Source.Steady (s : Source) : Prop :=
  ∃ chunks : List ByteArray, (∀ chunk ∈ chunks, chunk.size ≠ 0) ∧ s.readings = chunks.map .bytes

namespace Source

theorem steady_ofContent (data : ByteArray) : (ofContent data).Steady :=
  ⟨_, Bytes.chunks_nonempty, rfl⟩

theorem Steady.finalFault {s : Source} (h : s.Steady) : s.finalFault = s.fault := by
  obtain ⟨chunks, hchunks, hreadings⟩ := h
  rw [Source.finalFault, hreadings, piecesOf_bytes hchunks]

/-- The bytes do not depend on what comes after them. -/
theorem Steady.content_fault {s : Source} (h : s.Steady) (fault : Option IoFault) :
    ({ s with fault } : Source).content = s.content := by
  obtain ⟨chunks, hchunks, hreadings⟩ := h
  simp only [content, pieces, hreadings, piecesOf_bytes hchunks]

end Source

namespace Inflate

/-- That each byte of the output has its due. -/
def Progress.Paired (p : Progress) : Prop :=
  p.dues.size = p.output.size

namespace Progress

variable {p : Progress}

theorem paired_start : (⟨0, .empty, #[]⟩ : Progress).Paired :=
  rfl

theorem Paired.at (h : p.Paired) (position : Nat) : ({ p with position } : Progress).Paired :=
  h

theorem Paired.write (h : p.Paired) (byte : UInt8) (due : Due) : (p.write byte due).Paired := by
  change (p.dues.push due).size = (p.output.push byte).size
  rw [Array.size_push, ByteArray.size_push, h]

theorem Paired.copy (h : p.Paired) (distance : Nat) (due : Due) (length : Nat) :
    (p.copy distance due length).Paired := by
  induction length generalizing p with
  | zero => exact h
  | succ length ih =>
      rw [Progress.copy]
      exact ih (h.write _ due)

theorem Paired.store (h : p.Paired) (data : ByteArray) (start size : Nat) :
    (Progress.store data p start size).Paired := by
  induction size generalizing p start with
  | zero => exact h
  | succ size ih =>
      rw [Progress.store]
      split
      · apply ih
        exact h.write _ _
      · exact h

end Progress

theorem Progress.Paired.advance {p : Progress} (h : p.Paired) (data : ByteArray) (phase : Phase) :
    (advance data p phase).1.Paired := by
  cases phase with
  | header =>
      rw [Inflate.advance]
      split
      · exact h
      · exact h
      next isLast size position _ =>
        have hstore := (h.at position).store data (position / 8) size
        dsimp only
        split <;> exact hstore
  | content isLast codes =>
      rw [Inflate.advance]
      split
      · exact h
      next byte position _ => exact (h.at position).write byte _
      next length distance position _ => exact (h.at position).copy distance _ length
      · exact h

theorem paired_expandFrom (data : ByteArray) (fuel : Nat) {p : Progress} (h : p.Paired)
    (phase : Phase) :
    (expandFrom data fuel p phase).dues.size = (expandFrom data fuel p phase).output.size := by
  induction fuel generalizing p phase with
  | zero => exact h
  | succ fuel ih =>
      have hadvance := h.advance data phase
      rw [expandFrom]
      split
      next next phase' heq =>
        rw [heq] at hadvance
        exact ih hadvance phase'
      next next ending heq =>
        rw [heq] at hadvance
        exact hadvance

theorem paired_expand (data : ByteArray) : (expand data).dues.size = (expand data).output.size :=
  paired_expandFrom data _ Progress.paired_start .header

theorem reach_bounds (dues : Array Due) (limit given position : Nat) (h : position ≤ dues.size) :
    position ≤ reach dues limit given position ∧ reach dues limit given position ≤ dues.size := by
  fun_induction reach dues limit given position with
  | case1 position hbounds _ ih =>
      obtain ⟨hle, hbound⟩ := ih (by omega)
      exact ⟨by omega, hbound⟩
  | case2 => exact ⟨le_refl _, h⟩
  | case3 => exact ⟨le_refl _, h⟩

/-- Output comes into the window before it is handed on, and there is no more than was decoded. -/
structure Pump.Within (p : Pump) (s : Expanded) : Prop where
  delivered : p.delivered ≤ p.decoded
  decoded : p.decoded ≤ s.output.size

theorem fillWindows_within {s : Expanded} (hs : s.dues.size = s.output.size) (atEnd : Bool)
    (fuel : Nat) {p : Pump} (h : p.Within s) :
    (fillWindows s atEnd fuel p).1.Within s ∧
    (fillWindows s atEnd fuel p).1.delivered = p.delivered := by
  induction fuel generalizing p with
  | zero => exact ⟨h, rfl⟩
  | succ fuel ih =>
      obtain ⟨hle, hbound⟩ :=
        reach_bounds s.dues (p.decoded + (windowSize - p.decoded % windowSize)) p.given p.decoded
          (by rw [hs]; exact h.decoded)
      rw [hs] at hbound
      have hdelivered := h.delivered.trans hle
      rw [fillWindows]
      dsimp only
      split
      · exact ⟨⟨hdelivered, hbound⟩, rfl⟩
      · split
        · exact ⟨⟨hdelivered, hbound⟩, rfl⟩
        · split
          · exact ⟨⟨hdelivered, hbound⟩, rfl⟩
          next due _ _ =>
            exact @ih { p with decoded := _, consumed := min due.looked p.given }
              ⟨hdelivered, hbound⟩

/-- Filling fails only if the stream breaks the rules. -/
theorem fillWindows_invalid {s : Expanded} {atEnd : Bool} {fuel : Nat} {p : Pump}
    (h : (fillWindows s atEnd fuel p).2 = .invalid) :
    ∃ bytes, s.ending = .broken (.invalid bytes) := by
  induction fuel generalizing p with
  | zero => cases h
  | succ fuel ih =>
      rw [fillWindows] at h
      dsimp only at h
      split at h
      next filled hended =>
        obtain rfl : filled = .invalid := h
        split at hended
        · split at hended
          · split at hended <;> simp at hended
          next bytes hending => exact ⟨bytes, hending⟩
          · cases hended
        · cases hended
      · split at h
        · cases h
        · split at h
          · cases h
          · exact ih h

theorem push_within {s : Expanded} {p : Pump} (h : p.Within s) :
    p.push.2.Within s ∧ p.push.2.delivered = p.delivered + p.push.1 := by
  have hdelivered := h.delivered
  have hbound := h.decoded
  refine ⟨⟨?_, hbound⟩, rfl⟩
  change p.delivered + min (p.decoded - p.delivered) Source.bufferSize ≤ p.decoded
  omega

theorem push_ne_zero {p : Pump} (h : p.delivered < p.decoded) : p.push.1 ≠ 0 := by
  change min (p.decoded - p.delivered) Source.bufferSize ≠ 0
  have hbuffer : Source.bufferSize ≠ 0 := by decide
  omega

/-- What can be said of the sizes of pieces and the fault behind them. -/
structure Arrives (s : Expanded) (start : Nat) (result : List Nat × Option IoFault) : Prop where
  nonempty : ∀ n ∈ result.1, n ≠ 0
  bound : start + result.1.sum ≤ s.output.size
  fault : ∀ found, result.2 = some found → found = .unexpectedEnd ∨
    found = .invalidInput ∧ ∃ bytes, s.ending = .broken (.invalid bytes)

theorem Arrives.cons {s : Expanded} {start n : Nat} {result : List Nat × Option IoFault}
    (h : Arrives s (start + n) result) (hn : n ≠ 0) :
    Arrives s start (n :: result.1, result.2) where
  nonempty := List.forall_mem_cons.mpr ⟨hn, h.nonempty⟩
  bound := by
    have hbound := h.bound
    rw [List.sum_cons]
    omega
  fault := h.fault

theorem Pump.Within.arrives {s : Expanded} {p : Pump} (h : p.Within s) {fault : Option IoFault}
    (hfault : ∀ found, fault = some found → found = .unexpectedEnd ∨
      found = .invalidInput ∧ ∃ bytes, s.ending = .broken (.invalid bytes)) :
    Arrives s p.delivered ([], fault) :=
  ⟨by simp, h.delivered.trans h.decoded, hfault⟩

theorem arrives_deliveries {s : Expanded} (hs : s.dues.size = s.output.size) (size fuel : Nat)
    {p : Pump} (h : p.Within s) : Arrives s p.delivered (deliveries s size fuel p) := by
  induction fuel generalizing p with
  | zero => exact h.arrives (by simp)
  | succ fuel ih =>
      have hpushed : ∀ {q : Pump}, q.Within s → q.push.1 ≠ 0 → Arrives s q.delivered
          (q.push.1 :: (deliveries s size fuel q.push.2).1,
            (deliveries s size fuel q.push.2).2) := by
        intro q hq hne
        obtain ⟨hwithin, hdelivered⟩ := push_within hq
        have hrest := ih hwithin
        rw [hdelivered] at hrest
        exact hrest.cons hne
      rw [deliveries]
      split
      next hmore => exact hpushed h (push_ne_zero hmore)
      · dsimp only
        generalize hgiven :
          (if p.consumed = p.given then { p with given := min (p.given + inputBlock) size }
          else p) = q
        have hq : q.Within s ∧ q.delivered = p.delivered := by
          rw [← hgiven]
          split <;> exact ⟨⟨h.delivered, h.decoded⟩, rfl⟩
        generalize (decide (p.consumed = p.given) && decide (p.given = size)) = atEnd
        obtain ⟨hwithin, hdelivered⟩ := fillWindows_within hs atEnd 4 hq.1
        have hinvalid := @fillWindows_invalid s atEnd 4 q
        rw [← hq.2, ← hdelivered]
        generalize fillWindows s atEnd 4 q = filled at hwithin hinvalid ⊢
        split
        next hbroken => exact hwithin.arrives (by simpa using hinvalid hbroken)
        · split
          · exact hwithin.arrives (by simp)
          next hempty _ =>
            split
            · exact hwithin.arrives (by simp)
            · obtain ⟨hnext, hsame⟩ := push_within hwithin
              have hrest := ih hnext
              rwa [hsame, hempty, Nat.add_zero] at hrest
          next hsome _ => exact hpushed hwithin hsome

theorem cut_nonempty {data : ByteArray} {start : Nat} {sizes : List Nat}
    (hsizes : ∀ n ∈ sizes, n ≠ 0) (h : start + sizes.sum ≤ data.size) :
    ∀ chunk ∈ cut data start sizes, chunk.size ≠ 0 := by
  induction sizes generalizing start with
  | nil => simp [cut]
  | cons n sizes ih =>
      rw [List.sum_cons] at h
      obtain ⟨hn, hsizes⟩ := List.forall_mem_cons.mp hsizes
      rw [cut, List.forall_mem_cons]
      constructor
      · rw [ByteArray.size_extract]
        omega
      · apply ih hsizes
        omega

theorem arrives_source (data : ByteArray) : Arrives (expand data) 0
    (deliveries (expand data) data.size ((expand data).output.size + data.size + 3)
      ⟨0, 0, 0, 0⟩) :=
  arrives_deliveries (paired_expand data) _ _ (p := ⟨0, 0, 0, 0⟩) ⟨le_refl _, Nat.zero_le _⟩

theorem steady_source (data : ByteArray) : (source data).Steady := by
  have harrives := arrives_source data
  exact ⟨_, cut_nonempty harrives.nonempty harrives.bound, rfl⟩

/-- Decoding fails if bits break the rules, or if the input ends too early. -/
theorem finalFault_source {data : ByteArray} {fault : IoFault}
    (h : (source data).finalFault = some fault) : fault = .unexpectedEnd ∨
      fault = .invalidInput ∧ ∃ bytes, (expand data).ending = .broken (.invalid bytes) := by
  rw [(steady_source data).finalFault] at h
  exact (arrives_source data).fault fault h

end Inflate

end ArchiveOverlay
