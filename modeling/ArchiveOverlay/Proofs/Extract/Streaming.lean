import ArchiveOverlay.Extract
import Mathlib.Order.MinMax

namespace ArchiveOverlay

namespace Bytes

theorem extract_of_size_le {data : ByteArray} {stop : Nat} (h : data.size ≤ stop) :
    data.extract 0 stop = data := by
  ext1
  rw [ByteArray.data_extract]
  exact Array.extract_eq_self_of_le h

theorem chunks_nonempty {size : Nat} {data : ByteArray} :
    ∀ chunk ∈ chunks size data, chunk.size ≠ 0 := by
  fun_induction chunks size data with
  | case1 => simp
  | case2 data hdata hsize => simpa using hdata
  | case3 data hdata hsize rest ih =>
      intro chunk hchunk
      rcases List.mem_cons.mp hchunk with rfl | hchunk
      · rw [ByteArray.size_extract]
        omega
      · exact ih chunk hchunk

theorem foldl_chunks (size : Nat) (data start : ByteArray) :
    (chunks size data).foldl (· ++ ·) start = start ++ data := by
  fun_induction chunks size data generalizing start with
  | case1 data hdata =>
      rw [ByteArray.size_eq_zero_iff.mp hdata, List.foldl_nil, ByteArray.append_empty]
  | case2 data hdata hsize => rfl
  | case3 data hdata hsize rest ih =>
      have hjoined : data.extract 0 size ++ data.extract size data.size = data := by
        rw [ByteArray.extract_append_extract]
        exact extract_of_size_le (le_max_right _ _)
      rw [List.foldl_cons, ih, ByteArray.append_assoc, hjoined]

end Bytes

namespace Source

theorem piecesOf_bytes {chunks : List ByteArray} (h : ∀ chunk ∈ chunks, chunk.size ≠ 0)
    (fault : Option IoFault) : piecesOf fault (chunks.map .bytes) = (chunks, fault) := by
  induction chunks with
  | nil => rfl
  | cons chunk chunks ih =>
      rw [List.map_cons, piecesOf, if_neg (h chunk (by simp)),
        ih fun other hother => h other (by simp [hother])]

theorem finalFault_ofContent (data : ByteArray) : (ofContent data).finalFault = none := by
  rw [finalFault, ofContent, ofChunks, piecesOf_bytes Bytes.chunks_nonempty]

theorem content_ofContent (data : ByteArray) : (ofContent data).content = data := by
  rw [content, pieces, ofContent, ofChunks, piecesOf_bytes Bytes.chunks_nonempty,
    Bytes.foldl_chunks, ByteArray.empty_append]

end Source

/-- A sink that lets the work go on, takes some of whatever is offered and can be flushed. -/
structure Sink.Willing {σ : Type} (sink : Sink σ) : Prop where
  poll : ∀ state, (sink.poll state).1 = false
  write : ∀ state data, data.size ≠ 0 → ∃ n, (sink.write state data).1 = .ok (n + 1)
  flush : ∀ state, (sink.flush state).1 = .ok ()

/-- A sink that is willing as long as its state is good, and whose state stays so. -/
structure Sink.WillingIn {σ : Type} (sink : Sink σ) (good : σ → Prop) : Prop where
  poll : ∀ state, good state → (sink.poll state).1 = false ∧ good (sink.poll state).2
  write : ∀ state data, good state → data.size ≠ 0 →
    (∃ n, (sink.write state data).1 = .ok (n + 1)) ∧ good (sink.write state data).2
  flush : ∀ state, good state → (sink.flush state).1 = .ok () ∧ good (sink.flush state).2

namespace Sink

theorem Willing.willingIn {σ : Type} {sink : Sink σ} (h : sink.Willing) :
    sink.WillingIn fun _ => True where
  poll := fun state _ => ⟨h.poll state, trivial⟩
  write := fun state data _ hdata => ⟨h.write state data hdata, trivial⟩
  flush := fun state _ => ⟨h.flush state, trivial⟩

theorem willing_unlimited : (unlimited false).Willing where
  poll := fun _ => rfl
  write := by
    intro state data hdata
    obtain ⟨n, hn⟩ := Nat.exists_eq_add_one_of_ne_zero hdata
    exact ⟨n, congrArg Except.ok hn⟩
  flush := fun _ => rfl

theorem willingIn_cancellable : cancellable.WillingIn (· = false) where
  poll := fun _ hstate => ⟨hstate, hstate⟩
  write := by
    intro state data hstate hdata
    obtain ⟨n, hn⟩ := Nat.exists_eq_add_one_of_ne_zero hdata
    exact ⟨⟨n, congrArg Except.ok hn⟩, hstate⟩
  flush := fun _ hstate => ⟨rfl, hstate⟩

end Sink

namespace Outlet

variable {σ : Type} {sink : Sink σ} {good : σ → Prop}

theorem poll_willing (h : sink.WillingIn good) (o : Outlet σ) (ho : good o.state) :
    ∃ state, good state ∧ o.poll sink = (false, { o with state }) := by
  obtain ⟨hgoes, hgood⟩ := h.poll o.state ho
  refine ⟨(sink.poll o.state).2, hgood, ?_⟩
  rw [poll, ← hgoes]

theorem flush_willing (h : sink.WillingIn good) (o : Outlet σ) (ho : good o.state) :
    ∃ state, good state ∧
      o.flush sink = (.ok (), { o with state, flushes := o.flushes + 1 }) := by
  obtain ⟨hflush, hgood⟩ := h.flush o.state ho
  refine ⟨(sink.flush o.state).2, hgood, ?_⟩
  rw [flush, ← hflush]

/-- However few bytes are taken at a time, in the end all are. -/
theorem writeAll_willing (h : sink.WillingIn good) (o : Outlet σ) (ho : good o.state)
    (data : ByteArray) :
    ∃ state, good state ∧
      o.writeAll sink data = (.ok (), { o with state, accepted := o.accepted ++ data }) := by
  fun_induction writeAll sink o data with
  | case1 o data hempty =>
      refine ⟨o.state, ho, ?_⟩
      rw [ByteArray.size_eq_zero_iff.mp hempty, ByteArray.append_empty]
  | case2 o data hdata fault state hwrite =>
      obtain ⟨⟨n, hn⟩, -⟩ := h.write o.state data ho hdata
      simp [hwrite] at hn
  | case3 o data hdata state hwrite =>
      obtain ⟨⟨n, hn⟩, -⟩ := h.write o.state data ho hdata
      simp [hwrite] at hn
  | case4 o data hdata n state hwrite taken ih =>
      have hgood := (h.write o.state data ho hdata).2
      rw [hwrite] at hgood
      obtain ⟨state', hstate', hrest⟩ := ih hgood
      refine ⟨state', hstate', ?_⟩
      have hjoined : taken ++ data.extract (n + 1) data.size = data := by
        rw [ByteArray.extract_append_extract]
        exact Bytes.extract_of_size_le (le_max_right _ _)
      rw [hrest, ByteArray.append_assoc, hjoined]

end Outlet

theorem size_le_foldl (pieces : List ByteArray) (start : ByteArray) :
    start.size ≤ (pieces.foldl (· ++ ·) start).size := by
  induction pieces generalizing start with
  | nil => exact le_refl _
  | cons piece pieces ih =>
      refine le_trans ?_ (ih (start ++ piece))
      rw [ByteArray.size_append]
      exact Nat.le_add_right _ _

namespace Resolved

section Willing

variable {σ : Type} {sink : Sink σ}

/-- All pieces are written, and then the end or the fault of the source counts. -/
theorem copy_willing (hsink : sink.Willing) (r : Resolved) (fault : Option IoFault)
    (pieces : List ByteArray) (o : Outlet σ)
    (h : (pieces.foldl (· ++ ·) o.accepted).size ≤ r.entry.size) :
    ∃ state, r.copy sink fault pieces o.accepted.size o =
      (fault.elim (.ok (pieces.foldl (· ++ ·) o.accepted).size) fun fault =>
        .error (r.readFault (pieces.foldl (· ++ ·) o.accepted).size fault),
        { o with state, accepted := pieces.foldl (· ++ ·) o.accepted }) := by
  induction pieces generalizing o with
  | nil =>
      obtain ⟨state, -, hpoll⟩ := o.poll_willing hsink.willingIn trivial
      refine ⟨state, ?_⟩
      rw [copy, hpoll]
      cases fault <;> rfl
  | cons piece pieces ih =>
      have hpiece : o.accepted.size + piece.size ≤ r.entry.size := by
        rw [← ByteArray.size_append]
        exact (size_le_foldl pieces _).trans h
      obtain ⟨polled, -, hpoll⟩ := o.poll_willing hsink.willingIn trivial
      obtain ⟨written, -, hwrite⟩ :=
        Outlet.writeAll_willing hsink.willingIn { o with state := polled } trivial piece
      rw [copy, hpoll]
      dsimp only
      rw [if_neg (not_lt.mpr hpiece), hwrite, ← ByteArray.size_append]
      exact ih ⟨written, o.accepted ++ piece, o.flushes⟩ h

/-- The first piece that goes beyond the recorded size stops the copy. -/
theorem copy_exceeding (hsink : sink.Willing) (r : Resolved) (fault : Option IoFault)
    (pieces : List ByteArray) (o : Outlet σ)
    (h : r.entry.size < (pieces.foldl (· ++ ·) o.accepted).size)
    (hstart : o.accepted.size ≤ r.entry.size) :
    ∃ actual, r.entry.size < actual ∧ actual ≤ (pieces.foldl (· ++ ·) o.accepted).size ∧
      (r.copy sink fault pieces o.accepted.size o).1 = .error (r.corrupt actual) := by
  induction pieces generalizing o with
  | nil => exact absurd h (not_lt.mpr hstart)
  | cons piece pieces ih =>
      obtain ⟨polled, -, hpoll⟩ := o.poll_willing hsink.willingIn trivial
      rw [copy, hpoll]
      dsimp only
      rw [← ByteArray.size_append]
      split
      next hpiece => exact ⟨_, hpiece, size_le_foldl pieces _, rfl⟩
      next hpiece =>
        obtain ⟨written, -, hwrite⟩ :=
        Outlet.writeAll_willing hsink.willingIn { o with state := polled } trivial piece
        rw [hwrite]
        exact ih ⟨written, o.accepted ++ piece, o.flushes⟩ h (not_lt.mp hpiece)

theorem stream_exceeding (hsink : sink.Willing) {r : Resolved} {source : Source}
    (h : r.entry.size < source.content.size) (verify : Bool) (state : σ) :
    ∃ actual, r.entry.size < actual ∧ actual ≤ source.content.size ∧
      (r.stream verify source sink state).1 = .error (r.corrupt actual) := by
  obtain ⟨actual, hmore, hle, hcopy⟩ :=
    r.copy_exceeding hsink source.finalFault source.pieces (.start state) h (Nat.zero_le _)
  refine ⟨actual, hmore, hle, ?_⟩
  rw [stream]
  rcases hresult : r.copy sink source.finalFault source.pieces 0 (.start state) with ⟨result, o⟩
  have hstart : (Outlet.start state).accepted.size = 0 := rfl
  rw [hstart, hresult] at hcopy
  obtain rfl : result = .error (r.corrupt actual) := hcopy
  rfl

theorem stream_fault (hsink : sink.Willing) {r : Resolved} {source : Source} {fault : IoFault}
    (hfault : source.finalFault = some fault) (h : source.content.size ≤ r.entry.size)
    (verify : Bool) (state : σ) :
    (r.stream verify source sink state).1 = .error (r.readFault source.content.size fault) := by
  obtain ⟨state', hcopy⟩ := r.copy_willing hsink (some fault) source.pieces (.start state) h
  have hstart : (Outlet.start state).accepted.size = 0 := rfl
  rw [hstart] at hcopy
  rw [stream, hfault, hcopy]
  rfl

/-- A source that comes to its end gives all its bytes, and then they are looked at. -/
theorem exists_stream_ended (hsink : sink.Willing) {r : Resolved} {source : Source}
    (hfault : source.finalFault = none) (h : source.content.size ≤ r.entry.size) (verify : Bool)
    (state : σ) :
    ∃ state', r.stream verify source sink state =
      match r.check verify source.content source.content.size with
      | .error e => (.error e, ⟨state', source.content, 0⟩)
      | .ok () => (.ok source.content.size, ⟨state', source.content, 1⟩) := by
  obtain ⟨copied, hcopy⟩ := r.copy_willing hsink none source.pieces (.start state) h
  have hcopy' : r.copy sink none source.pieces 0 (.start state) =
      (.ok source.content.size, ⟨copied, source.content, 0⟩) := hcopy
  obtain ⟨flushed, -, hflush⟩ :=
    Outlet.flush_willing hsink.willingIn ⟨copied, source.content, 0⟩ trivial
  rw [stream, hfault, hcopy']
  dsimp only
  rcases r.check verify source.content source.content.size with e | _
  · exact ⟨copied, rfl⟩
  · refine ⟨flushed, ?_⟩
    dsimp only
    rw [hflush]

/-- A source with the recorded content is extracted as a whole, verified or not. -/
theorem exists_stream_recorded (hsink : sink.Willing) {r : Resolved} {source : Source}
    (hfault : source.finalFault = none) (hsize : r.entry.size = source.content.size)
    (hchecksum : r.entry.checksum = Digest.xxh3 source.content) (verify : Bool) (state : σ) :
    ∃ state', r.stream verify source sink state =
      (.ok source.content.size, ⟨state', source.content, 1⟩) := by
  have hcheck : r.check verify source.content source.content.size = .ok () := by
    rw [check, if_neg (by simp [hsize])]
    simp [hchecksum]
  obtain ⟨state', hstream⟩ := exists_stream_ended hsink hfault hsize.ge verify state
  refine ⟨state', ?_⟩
  rw [hstream, hcheck]

end Willing

section TwoSinks

variable {σ τ : Type} {sink : Sink σ} {sink' : Sink τ} {good : σ → Prop} {good' : τ → Prop}

/-- To which willing sink bytes go makes no difference. -/
theorem copy_of_willing (hsink : sink.WillingIn good) (hsink' : sink'.WillingIn good')
    (r : Resolved) (fault : Option IoFault) (pieces : List ByteArray) (written : Nat)
    (o : Outlet σ) (o' : Outlet τ)
    (ho : good o.state) (ho' : good' o'.state) (h : o.accepted = o'.accepted) :
    (r.copy sink fault pieces written o).1 = (r.copy sink' fault pieces written o').1 ∧
      (r.copy sink fault pieces written o).2.accepted =
        (r.copy sink' fault pieces written o').2.accepted ∧
      good (r.copy sink fault pieces written o).2.state ∧
      good' (r.copy sink' fault pieces written o').2.state := by
  induction pieces generalizing written o o' with
  | nil =>
      obtain ⟨polled, hpolled, hpoll⟩ := o.poll_willing hsink ho
      obtain ⟨polled', hpolled', hpoll'⟩ := o'.poll_willing hsink' ho'
      rw [copy, copy, hpoll, hpoll']
      cases fault with
      | none => exact ⟨rfl, h, hpolled, hpolled'⟩
      | some fault => exact ⟨rfl, h, hpolled, hpolled'⟩
  | cons piece pieces ih =>
      obtain ⟨polled, hpolled, hpoll⟩ := o.poll_willing hsink ho
      obtain ⟨polled', hpolled', hpoll'⟩ := o'.poll_willing hsink' ho'
      obtain ⟨state, hstate, hwrite⟩ :=
        Outlet.writeAll_willing hsink { o with state := polled } hpolled piece
      obtain ⟨state', hstate', hwrite'⟩ :=
        Outlet.writeAll_willing hsink' { o' with state := polled' } hpolled' piece
      rw [copy, copy, hpoll, hpoll']
      dsimp only
      by_cases hsize : written + piece.size > r.entry.size
      · rw [if_pos hsize, if_pos hsize]
        exact ⟨rfl, h, hpolled, hpolled'⟩
      · rw [if_neg hsize, if_neg hsize, hwrite, hwrite']
        exact ih _ _ _ hstate hstate' (by rw [h])

theorem stream_of_willing (hsink : sink.WillingIn good) (hsink' : sink'.WillingIn good')
    (r : Resolved) (verify : Bool) (source : Source) {state : σ} {state' : τ} (hstate : good state)
    (hstate' : good' state') :
    (r.stream verify source sink state).1 = (r.stream verify source sink' state').1 ∧
      (r.stream verify source sink state).2.accepted =
        (r.stream verify source sink' state').2.accepted ∧
      good (r.stream verify source sink state).2.state ∧
      good' (r.stream verify source sink' state').2.state := by
  obtain ⟨hresult, haccepted, hgood, hgood'⟩ := r.copy_of_willing hsink hsink' source.finalFault
    source.pieces 0 (.start state) (.start state') hstate hstate' rfl
  rw [stream, stream]
  generalize r.copy sink source.finalFault source.pieces 0 (.start state) = copied
    at hresult haccepted hgood ⊢
  generalize r.copy sink' source.finalFault source.pieces 0 (.start state') = copied'
    at hresult haccepted hgood' ⊢
  rcases copied with ⟨result, o⟩
  rcases copied' with ⟨result', o'⟩
  obtain rfl : result = result' := hresult
  replace haccepted : o.accepted = o'.accepted := haccepted
  cases result with
  | error e => exact ⟨rfl, haccepted, hgood, hgood'⟩
  | ok written =>
      obtain ⟨flushed, hflushed, hflush⟩ := o.flush_willing hsink hgood
      obtain ⟨flushed', hflushed', hflush'⟩ := o'.flush_willing hsink' hgood'
      dsimp only
      rw [haccepted]
      cases r.check verify o'.accepted written with
      | error e => exact ⟨rfl, haccepted, hgood, hgood'⟩
      | ok _ =>
          dsimp only
          rw [hflush, hflush']
          exact ⟨rfl, haccepted, hflushed, hflushed'⟩

theorem deliver_of_willing (hsink : sink.WillingIn good) (hsink' : sink'.WillingIn good')
    (r : Resolved) (verify : Bool) (source : Except Error Source) {state : σ} {state' : τ}
    (hstate : good state) (hstate' : good' state') :
    (r.deliver verify source sink state).1 = (r.deliver verify source sink' state').1 ∧
      (r.deliver verify source sink state).2.accepted =
        (r.deliver verify source sink' state').2.accepted ∧
      good (r.deliver verify source sink state).2.state ∧
      good' (r.deliver verify source sink' state').2.state := by
  cases source with
  | error e => exact ⟨rfl, rfl, hstate, hstate'⟩
  | ok source => exact r.stream_of_willing hsink hsink' verify source hstate hstate'

end TwoSinks

theorem stream_ended {r : Resolved} {source : Source} (hfault : source.finalFault = none)
    (h : source.content.size ≤ r.entry.size) (verify : Bool) :
    r.stream verify source (.unlimited false) () =
      match r.check verify source.content source.content.size with
      | .error e => (.error e, ⟨(), source.content, 0⟩)
      | .ok () => (.ok source.content.size, ⟨(), source.content, 1⟩) :=
  (exists_stream_ended Sink.willing_unlimited hfault h verify ()).choose_spec

theorem stream_recorded {r : Resolved} {source : Source} (hfault : source.finalFault = none)
    (hsize : r.entry.size = source.content.size)
    (hchecksum : r.entry.checksum = Digest.xxh3 source.content) (verify : Bool) :
    r.stream verify source (.unlimited false) () =
      (.ok source.content.size, ⟨(), source.content, 1⟩) :=
  (exists_stream_recorded Sink.willing_unlimited hfault hsize hchecksum verify ()).choose_spec

theorem stream_cancelled (r : Resolved) (verify : Bool) (source : Source) :
    r.stream verify source (.unlimited true) () = (.error .cancelled, .start ()) := by
  have hcopy : ∀ pieces, r.copy (.unlimited true) source.finalFault pieces 0 (.start ()) =
      (.error .cancelled, .start ()) := by
    intro pieces
    cases pieces <;> rfl
  rw [stream, hcopy]

theorem readFault_ne_cancelled (r : Resolved) (written : Nat) (fault : IoFault) :
    r.readFault written fault ≠ .cancelled := by
  unfold readFault
  split
  · split <;> simp [corrupt]
  · simp [corrupt]
  · simp

theorem copy_ne_cancelled (r : Resolved) (fault : Option IoFault) (pieces : List ByteArray)
    (written : Nat) (o : Outlet Unit) :
    (r.copy (.unlimited false) fault pieces written o).1 ≠ .error .cancelled := by
  induction pieces generalizing written o with
  | nil =>
      cases fault with
      | none => simp [copy, Outlet.poll, Sink.unlimited]
      | some fault =>
          simpa [copy, Outlet.poll, Sink.unlimited] using r.readFault_ne_cancelled written fault
  | cons piece pieces ih =>
      have hpoll : o.poll (.unlimited false) = (false, o) := rfl
      obtain ⟨state, -, hwrite⟩ :=
        o.writeAll_willing Sink.willing_unlimited.willingIn trivial piece
      rw [copy, hpoll]
      dsimp only
      split
      · simp [corrupt]
      · rw [hwrite]
        exact ih _ _

theorem check_ne_cancelled (r : Resolved) (verify : Bool) (content : ByteArray) (written : Nat) :
    r.check verify content written ≠ .error .cancelled := by
  rw [check]
  split
  · simp [corrupt]
  · dsimp only
    split <;> simp

/-- What nobody cancels is not reported as cancelled. -/
theorem stream_ne_cancelled (r : Resolved) (verify : Bool) (source : Source) :
    (r.stream verify source (.unlimited false) ()).1 ≠ .error .cancelled := by
  have hcopy := r.copy_ne_cancelled source.finalFault source.pieces 0 (.start ())
  rw [stream]
  split
  next e o heq =>
    rw [heq] at hcopy
    simpa using hcopy
  next written o _ =>
    have hcheck := r.check_ne_cancelled verify o.accepted written
    split
    next e herror =>
      rw [herror] at hcheck
      simpa using hcheck
    · simp [Outlet.flush, Sink.unlimited]

end Resolved

end ArchiveOverlay
