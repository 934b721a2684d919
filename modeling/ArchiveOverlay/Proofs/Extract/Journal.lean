import ArchiveOverlay.Proofs.Extract.Streaming

/-!
What happens at a sink while a file is extracted, and in which order. A sink is given a journal
that does not change what it does; `Copies` says what a copy can leave in the journal, and what
holds at every moment of an extraction follows from that by induction.
-/

namespace ArchiveOverlay

theorem Bytes.foldl_append (pieces : List ByteArray) (start : ByteArray) :
    pieces.foldl (· ++ ·) start = start ++ pieces.foldl (· ++ ·) .empty := by
  induction pieces generalizing start with
  | nil => exact ByteArray.append_empty.symm
  | cons piece pieces ih =>
      rw [List.foldl_cons, List.foldl_cons, ih (start ++ piece), ih (.empty ++ piece),
        ByteArray.empty_append, ByteArray.append_assoc]

theorem Bytes.foldl_cons (piece : ByteArray) (pieces : List ByteArray) :
    (piece :: pieces).foldl (· ++ ·) .empty = piece ++ pieces.foldl (· ++ ·) .empty := by
  rw [List.foldl_cons, Bytes.foldl_append, ByteArray.empty_append]

/-- What is done to a sink, with its answer. -/
inductive SinkEvent where
  | polled (cancelled : Bool)
  | offered (data : ByteArray) (answer : Except IoFault Nat)
  | flushed (answer : Except IoFault Unit)

namespace SinkEvent

def isPoll : SinkEvent → Bool
  | polled _ => true
  | _ => false

def isFlush : SinkEvent → Bool
  | flushed _ => true
  | _ => false

/-- The bytes that went into the sink. -/
def taken : SinkEvent → ByteArray
  | offered data (.ok n) => data.extract 0 n
  | _ => .empty

/-- All bytes that went into the sink, in their order. -/
def accepted : List SinkEvent → ByteArray
  | [] => .empty
  | event :: events => event.taken ++ accepted events

@[simp] theorem accepted_nil : accepted [] = .empty :=
  rfl

@[simp] theorem accepted_append (events more : List SinkEvent) :
    accepted (events ++ more) = accepted events ++ accepted more := by
  induction events with
  | nil => exact ByteArray.empty_append.symm
  | cons event events ih =>
      rw [List.cons_append, accepted, accepted, ih, ByteArray.append_assoc]

@[simp] theorem accepted_polled (cancelled : Bool) (events : List SinkEvent) :
    accepted (polled cancelled :: events) = accepted events :=
  ByteArray.empty_append

@[simp] theorem accepted_flushed (answer : Except IoFault Unit) :
    accepted [flushed answer] = .empty :=
  rfl

end SinkEvent

open SinkEvent

variable {σ : Type}

/-- The same sink with a journal of all that is done to it. -/
def Sink.journaled (sink : Sink σ) : Sink (σ × List SinkEvent) where
  poll s := ((sink.poll s.1).1, (sink.poll s.1).2, s.2 ++ [.polled (sink.poll s.1).1])
  write s data :=
    ((sink.write s.1 data).1, (sink.write s.1 data).2,
      s.2 ++ [.offered data (sink.write s.1 data).1])
  flush s := ((sink.flush s.1).1, (sink.flush s.1).2, s.2 ++ [.flushed (sink.flush s.1).1])

/-- The outlet without the journal. -/
def Outlet.bare (o : Outlet (σ × List SinkEvent)) : Outlet σ :=
  ⟨o.state.1, o.accepted, o.flushes⟩

/-- The outlet after these events, with the sink in another state. -/
def Outlet.after (o : Outlet (σ × List SinkEvent)) (state : σ) (events : List SinkEvent) :
    Outlet (σ × List SinkEvent) :=
  ⟨(state, o.state.2 ++ events), o.accepted ++ SinkEvent.accepted events,
    o.flushes + events.countP isFlush⟩

theorem Outlet.after_nil (o : Outlet (σ × List SinkEvent)) : o.after o.state.1 [] = o := by
  simp [after, SinkEvent.accepted]

theorem Outlet.after_after (o : Outlet (σ × List SinkEvent)) (state state' : σ)
    (events more : List SinkEvent) :
    (o.after state events).after state' more = o.after state' (events ++ more) := by
  simp [after, ByteArray.append_assoc, Nat.add_assoc]

/-- Offers of one piece: what was taken is its beginning, and nothing is left out where all went
well. -/
structure Offers (piece : ByteArray) (events : List SinkEvent) (result : Except IoFault Unit) :
    Prop where
  offers : ∀ event ∈ events, ∃ data answer, event = .offered data answer
  begins : ∃ rest, accepted events ++ rest = piece
  all : result = .ok () → accepted events = piece

namespace Offers

variable {piece : ByteArray} {events : List SinkEvent} {result : Except IoFault Unit}

theorem no_flush (h : Offers piece events result) : events.countP isFlush = 0 := by
  rw [List.countP_eq_zero]
  intro event hevent
  obtain ⟨data, answer, rfl⟩ := h.offers event hevent
  simp [isFlush]

theorem no_poll (h : Offers piece events result) : events.countP isPoll = 0 := by
  rw [List.countP_eq_zero]
  intro event hevent
  obtain ⟨data, answer, rfl⟩ := h.offers event hevent
  simp [isPoll]

theorem polls (h : Offers piece events result) (cancelled : Bool) (more : List SinkEvent) :
    (SinkEvent.polled cancelled :: (events ++ more)).countP isPoll = more.countP isPoll + 1 := by
  rw [List.countP_cons_of_pos rfl, List.countP_append, h.no_poll, Nat.zero_add]

/-- Amid the offers of a piece, the bytes that were taken are the beginning of that piece, for
which there was one check. -/
theorem amid {early late : List SinkEvent} (h : Offers piece (early ++ late) result)
    (cancelled : Bool) (pieces : List ByteArray) :
    ∃ rest, accepted (.polled cancelled :: early) ++ rest =
      ((piece :: pieces).take ((SinkEvent.polled cancelled :: early).countP isPoll)).foldl (· ++ ·)
        .empty := by
  obtain ⟨rest, hrest⟩ := h.begins
  have hpoll : early.countP isPoll = 0 := by
    have hall := h.no_poll
    rw [List.countP_append] at hall
    omega
  refine ⟨accepted late ++ rest, ?_⟩
  rw [List.countP_cons_of_pos rfl, hpoll, Nat.zero_add, List.take_succ_cons, List.take_zero,
    Bytes.foldl_cons, List.foldl_nil, ByteArray.append_empty, accepted_polled,
    ← ByteArray.append_assoc, ← accepted_append, hrest]

/-- A check never comes between the offers of a piece. -/
theorem check_after (h : Offers piece events result) {more before after : List SinkEvent}
    {cancelled : Bool} (hsplit : events ++ more = before ++ .polled cancelled :: after) :
    ∃ rest, before = events ++ rest ∧ more = rest ++ .polled cancelled :: after := by
  rcases List.append_eq_append_iff.mp hsplit with ⟨rest, hbefore, hmore⟩ | ⟨rest, hevents, hrest⟩
  · exact ⟨rest, hbefore, hmore⟩
  · cases rest with
    | nil =>
        refine ⟨[], ?_, hrest.symm⟩
        simpa using hevents.symm
    | cons event rest =>
        obtain ⟨rfl, -⟩ := List.cons.inj hrest
        obtain ⟨data, answer, hoffered⟩ := h.offers (.polled cancelled) (by simp [hevents])
        cases hoffered

end Offers

namespace Outlet

theorem poll_journaled (sink : Sink σ) (o : Outlet (σ × List SinkEvent)) :
    ∃ cancelled state, o.poll sink.journaled = (cancelled, o.after state [.polled cancelled]) ∧
      o.bare.poll sink = (cancelled, (o.after state [.polled cancelled]).bare) := by
  refine ⟨(sink.poll o.state.1).1, (sink.poll o.state.1).2, ?_, ?_⟩ <;>
    simp [poll, after, bare, Sink.journaled, SinkEvent.accepted, SinkEvent.taken,
      SinkEvent.isFlush]

theorem flush_journaled (sink : Sink σ) (o : Outlet (σ × List SinkEvent)) :
    ∃ answer state, o.flush sink.journaled = (answer, o.after state [.flushed answer]) ∧
      o.bare.flush sink = (answer, (o.after state [.flushed answer]).bare) := by
  refine ⟨(sink.flush o.state.1).1, (sink.flush o.state.1).2, ?_, ?_⟩ <;>
    simp [flush, after, bare, Sink.journaled, SinkEvent.accepted, SinkEvent.taken,
      SinkEvent.isFlush]

theorem write_journaled {sink : Sink σ} {o : Outlet (σ × List SinkEvent)} {data : ByteArray}
    {answer : Except IoFault Nat} {s : σ × List SinkEvent}
    (h : sink.journaled.write o.state data = (answer, s)) :
    sink.write o.bare.state data = (answer, s.1) ∧
      s.2 = o.state.2 ++ [.offered data answer] := by
  obtain ⟨rfl, rfl⟩ := Prod.mk.inj h
  exact ⟨rfl, rfl⟩

theorem after_untaken {o : Outlet (σ × List SinkEvent)} {data : ByteArray}
    {answer : Except IoFault Nat} {s : σ × List SinkEvent}
    (hjournal : s.2 = o.state.2 ++ [.offered data answer])
    (htaken : (SinkEvent.offered data answer).taken = .empty) :
    o.after s.1 [.offered data answer] = { o with state := s } := by
  simp [after, SinkEvent.accepted, SinkEvent.isFlush, htaken, ← hjournal]

/-- Writing with a journal is writing without it, and the journal gets offers of the data. -/
theorem writeAll_journaled (sink : Sink σ) (o : Outlet (σ × List SinkEvent)) (data : ByteArray) :
    ∃ result state events, Offers data events result ∧
      o.writeAll sink.journaled data = (result, o.after state events) ∧
      o.bare.writeAll sink data = (result, (o.after state events).bare) := by
  fun_induction writeAll sink.journaled o data with
  | case1 o data hempty =>
      refine ⟨.ok (), o.state.1, [], ⟨by simp, ⟨data, ByteArray.empty_append⟩, fun _ => ?_⟩, ?_,
        ?_⟩
      · exact (ByteArray.size_eq_zero_iff.mp hempty).symm
      · rw [after_nil]
      · rw [after_nil, writeAll, if_pos hempty]
  | case2 o data hdata fault s hwrite =>
      obtain ⟨hbare, hjournal⟩ := write_journaled hwrite
      refine ⟨.error fault, s.1, [.offered data (.error fault)],
        ⟨by simp, ⟨data, ByteArray.empty_append⟩, by simp⟩, ?_, ?_⟩
      · rw [after_untaken hjournal rfl]
      · rw [writeAll, if_neg hdata, hbare, after_untaken hjournal rfl]
        rfl
  | case3 o data hdata s hwrite =>
      obtain ⟨hbare, hjournal⟩ := write_journaled hwrite
      have htaken : (SinkEvent.offered data (.ok 0)).taken = .empty := by
        simp [SinkEvent.taken]
      refine ⟨.error .writeZero, s.1, [.offered data (.ok 0)],
        ⟨by simp, ⟨data, by simp [SinkEvent.accepted, htaken]⟩, by simp⟩, ?_, ?_⟩
      · rw [after_untaken hjournal htaken]
      · rw [writeAll, if_neg hdata, hbare, after_untaken hjournal htaken]
        rfl
  | case4 o data hdata n s hwrite taken ih =>
      obtain ⟨hbare, hjournal⟩ := write_journaled hwrite
      obtain ⟨result, state, events, hoffers, hrest, hrestBare⟩ := ih
      -- What was taken first and what is offered after it are the data.
      have hjoined : taken ++ data.extract (n + 1) data.size = data := by
        rw [ByteArray.extract_append_extract]
        exact Bytes.extract_of_size_le (le_max_right _ _)
      have hafter : (⟨s, o.accepted ++ taken, o.flushes⟩ : Outlet _).after state events =
          o.after state (.offered data (.ok (n + 1)) :: events) := by
        simp [after, SinkEvent.accepted, SinkEvent.taken, SinkEvent.isFlush, hjournal,
          ByteArray.append_assoc, taken]
      obtain ⟨rest, hrestTaken⟩ := hoffers.begins
      refine ⟨result, state, .offered data (.ok (n + 1)) :: events, ⟨?_, ⟨rest, ?_⟩, ?_⟩, ?_, ?_⟩
      · intro event hevent
        rcases List.mem_cons.mp hevent with rfl | hevent
        · exact ⟨data, .ok (n + 1), rfl⟩
        · exact hoffers.offers event hevent
      · rw [SinkEvent.accepted, ByteArray.append_assoc, hrestTaken]
        exact hjoined
      · intro hok
        rw [SinkEvent.accepted, hoffers.all hok]
        exact hjoined
      · rw [hrest, hafter]
      · rw [writeAll, if_neg hdata, hbare, ← hafter]
        exact hrestBare

end Outlet

namespace Resolved

/-- What a copy of these pieces, after so many bytes, can do to a sink, and what it then
returns. -/
inductive Copies (r : Resolved) (fault : Option IoFault) :
    List ByteArray → (written : Nat) → List SinkEvent → Except Error Nat → Prop where
  | cancelled {pieces : List ByteArray} {written : Nat} :
      r.Copies fault pieces written [.polled true] (.error .cancelled)
  | ended {written : Nat} :
      r.Copies fault [] written [.polled false]
        (fault.elim (.ok written) fun fault => .error (r.readFault written fault))
  | exceeding {piece : ByteArray} {pieces : List ByteArray} {written : Nat}
      (h : r.entry.size < written + piece.size) :
      r.Copies fault (piece :: pieces) written [.polled false]
        (.error (r.corrupt (written + piece.size)))
  | refused {piece : ByteArray} {pieces : List ByteArray} {written : Nat} {offers : List SinkEvent}
      {refusal : IoFault} (h : written + piece.size ≤ r.entry.size)
      (hoffers : Offers piece offers (.error refusal)) :
      r.Copies fault (piece :: pieces) written (.polled false :: offers) (.error (.io refusal))
  | passed {piece : ByteArray} {pieces : List ByteArray} {written : Nat}
      {offers events : List SinkEvent} {result : Except Error Nat}
      (h : written + piece.size ≤ r.entry.size)
      (hoffers : Offers piece offers (.ok ()))
      (hrest : r.Copies fault pieces (written + piece.size) events result) :
      r.Copies fault (piece :: pieces) written (.polled false :: (offers ++ events)) result

/-- Copying with a journal is copying without it, and the journal gets what a copy can do. -/
theorem copy_journaled (r : Resolved) (sink : Sink σ) (fault : Option IoFault)
    (pieces : List ByteArray) (written : Nat) (o : Outlet (σ × List SinkEvent)) :
    ∃ result state events, r.Copies fault pieces written events result ∧
      r.copy sink.journaled fault pieces written o = (result, o.after state events) ∧
      r.copy sink fault pieces written o.bare = (result, (o.after state events).bare) := by
  induction pieces generalizing written o with
  | nil =>
      obtain ⟨cancelled, state, hpoll, hbare⟩ := o.poll_journaled sink
      cases cancelled with
      | true =>
          refine ⟨_, state, [.polled true], .cancelled, ?_, ?_⟩
          · rw [copy, hpoll]
          · rw [copy, hbare]
      | false =>
          refine ⟨_, state, [.polled false], .ended, ?_, ?_⟩
          · rw [copy, hpoll]
            cases fault <;> rfl
          · rw [copy, hbare]
            cases fault <;> rfl
  | cons piece pieces ih =>
      obtain ⟨cancelled, polled, hpoll, hpollBare⟩ := o.poll_journaled sink
      cases cancelled with
      | true =>
          refine ⟨_, polled, [.polled true], .cancelled, ?_, ?_⟩
          · rw [copy, hpoll]
          · rw [copy, hpollBare]
      | false =>
          rw [copy, hpoll, copy, hpollBare]
          dsimp only
          split
          next hmore => exact ⟨_, polled, [.polled false], .exceeding hmore, rfl, rfl⟩
          next hfits =>
            obtain ⟨answer, state, offers, hoffers, hwrite, hwriteBare⟩ :=
              (o.after polled [.polled false]).writeAll_journaled sink piece
            rw [Outlet.after_after] at hwrite hwriteBare
            rw [hwrite, hwriteBare]
            cases answer with
            | error refusal => exact ⟨_, state, _, .refused (not_lt.mp hfits) hoffers, rfl, rfl⟩
            | ok =>
                obtain ⟨result, final, events, hcopies, hcopy, hcopyBare⟩ :=
                  ih (written + piece.size) (o.after state ([.polled false] ++ offers))
                rw [Outlet.after_after] at hcopy hcopyBare
                exact ⟨result, final, _, .passed (not_lt.mp hfits) hoffers hcopies,
                  hcopy, hcopyBare⟩

namespace Copies

variable {r : Resolved} {fault : Option IoFault} {pieces : List ByteArray} {written : Nat}
  {events : List SinkEvent} {result : Except Error Nat}

/-- At every moment the bytes that were taken are the beginning of the pieces for which there was a
check. -/
theorem begins (h : r.Copies fault pieces written events result) {early late : List SinkEvent}
    (hevents : events = early ++ late) :
    ∃ rest, accepted early ++ rest =
      (pieces.take (early.countP isPoll)).foldl (· ++ ·) .empty := by
  induction h generalizing early with
  | cancelled | ended | exceeding =>
      rcases List.cons_eq_append_iff.mp hevents with ⟨rfl, -⟩ | ⟨none, rfl, hnone⟩
      · exact ⟨_, ByteArray.empty_append⟩
      · obtain ⟨rfl, -⟩ := List.append_eq_nil_iff.mp hnone.symm
        exact ⟨_, by rw [accepted_polled, accepted_nil, ByteArray.empty_append]⟩
  | @refused piece pieces written offers refusal hfits hoffers =>
      rcases List.cons_eq_append_iff.mp hevents with ⟨rfl, -⟩ | ⟨early, rfl, rfl⟩
      · exact ⟨_, ByteArray.empty_append⟩
      · exact hoffers.amid false pieces
  | @passed piece pieces written offers events result hfits hoffers _ ih =>
      rcases List.cons_eq_append_iff.mp hevents with ⟨rfl, -⟩ | ⟨early, rfl, hsplit⟩
      · exact ⟨_, ByteArray.empty_append⟩
      · rcases List.append_eq_append_iff.mp hsplit with ⟨next, rfl, hnext⟩ | ⟨missing, rfl, -⟩
        · obtain ⟨rest, hrest⟩ := ih hnext
          refine ⟨rest, ?_⟩
          rw [hoffers.polls, List.take_succ_cons, Bytes.foldl_cons, ← hrest, accepted_polled,
            accepted_append, hoffers.all rfl, ByteArray.append_assoc]
        · exact hoffers.amid false pieces

theorem size_le (h : r.Copies fault pieces written events result)
    (hwritten : written ≤ r.entry.size) :
    written + (accepted events).size ≤ r.entry.size := by
  induction h with
  | cancelled | ended | exceeding => simpa using hwritten
  | @refused piece pieces written offers refusal hfits hoffers =>
      obtain ⟨rest, hrest⟩ := hoffers.begins
      have hsize := congrArg ByteArray.size hrest
      rw [ByteArray.size_append] at hsize
      rw [accepted_polled]
      omega
  | @passed piece pieces written offers events result hfits hoffers _ ih =>
      have hrest := ih hfits
      rw [accepted_polled, accepted_append, hoffers.all rfl, ByteArray.size_append]
      omega

theorem no_flush (h : r.Copies fault pieces written events result) :
    events.countP isFlush = 0 := by
  induction h with
  | cancelled | ended | exceeding => rfl
  | refused hfits hoffers => simpa [isFlush] using hoffers.no_flush
  | passed hfits hoffers _ ih => simpa [isFlush, ih] using hoffers.no_flush

theorem cancelled_iff (h : r.Copies fault pieces written events result) :
    result = .error .cancelled ↔ .polled true ∈ events := by
  have hoffered {piece : ByteArray} {offers : List SinkEvent} {answer : Except IoFault Unit}
      (hoffers : Offers piece offers answer) : .polled true ∉ offers := by
    intro hmem
    obtain ⟨data, answer, hpolled⟩ := hoffers.offers _ hmem
    cases hpolled
  induction h with
  | cancelled => simp
  | ended =>
      cases fault with
      | none => simp
      | some fault => simpa using r.readFault_ne_cancelled _ fault
  | exceeding => simp [corrupt]
  | refused hfits hoffers => simpa using hoffered hoffers
  | passed hfits hoffers _ ih => simpa [hoffered hoffers] using ih

theorem unseen {n : Nat} (h : r.Copies fault pieces written events (.ok n)) :
    .polled true ∉ events := by
  intro hseen
  cases h.cancelled_iff.mpr hseen

/-- At every check, all pieces have been taken for which there was a check before. If it shows the
sign to stop, nothing more happens. -/
theorem at_check (h : r.Copies fault pieces written events result) {before after : List SinkEvent}
    {cancelled : Bool} (hcheck : events = before ++ .polled cancelled :: after) :
    before.countP isPoll ≤ pieces.length ∧
      accepted before = (pieces.take (before.countP isPoll)).foldl (· ++ ·) .empty ∧
      (cancelled = true → after = []) := by
  induction h generalizing before with
  | cancelled | ended | exceeding =>
      -- There is one check, and nothing comes before or after it.
      rcases List.cons_eq_append_iff.mp hcheck with ⟨rfl, hafter⟩ | ⟨rest, -, hrest⟩
      · obtain ⟨-, rfl⟩ := List.cons.inj hafter
        simp
      · simp at hrest
  | refused hfits hoffers =>
      rcases List.cons_eq_append_iff.mp hcheck with ⟨rfl, hafter⟩ | ⟨rest, -, hrest⟩
      · obtain ⟨hcancelled, -⟩ := List.cons.inj hafter
        cases hcancelled
        simp
      · obtain ⟨none, -, hnone⟩ := hoffers.check_after ((List.append_nil _).trans hrest)
        simp at hnone
  | passed hfits hoffers _ ih =>
      rcases List.cons_eq_append_iff.mp hcheck with ⟨rfl, hafter⟩ | ⟨rest, rfl, hrest⟩
      · obtain ⟨hcancelled, -⟩ := List.cons.inj hafter
        cases hcancelled
        simp
      · obtain ⟨earlier, rfl, hevents⟩ := hoffers.check_after hrest
        obtain ⟨hcount, htaken, hstop⟩ := ih hevents
        rw [hoffers.polls, List.length_cons, List.take_succ_cons, Bytes.foldl_cons, ← htaken,
          accepted_polled, accepted_append, hoffers.all rfl]
        exact ⟨by omega, rfl, hstop⟩

theorem of_ok {n : Nat} (h : r.Copies fault pieces written events result) (hok : result = .ok n) :
    n = written + (accepted events).size ∧ accepted events = pieces.foldl (· ++ ·) .empty ∧
      events.countP isPoll = pieces.length + 1 := by
  induction h with
  | cancelled | exceeding | refused => cases hok
  | ended =>
      cases fault with
      | none =>
          cases hok
          simp [isPoll]
      | some fault => cases hok
  | @passed piece pieces written offers events result hfits hoffers _ ih =>
      obtain ⟨hn, htaken, hpolls⟩ := ih hok
      refine ⟨?_, ?_, ?_⟩
      · rw [hn, accepted_polled, accepted_append, hoffers.all rfl, ByteArray.size_append]
        omega
      · rw [accepted_polled, accepted_append, hoffers.all rfl, htaken, Bytes.foldl_cons]
      · rw [hoffers.polls, hpolls, List.length_cons]

theorem no_fault {n : Nat} (h : r.Copies fault pieces written events result)
    (hok : result = .ok n) :
    fault = none := by
  induction h with
  | cancelled | exceeding | refused => cases hok
  | ended =>
      cases fault with
      | none => rfl
      | some fault => cases hok
  | passed _ _ _ ih => exact ih hok

end Copies

/-- What an extraction of this source can do to a sink, and what it then returns. -/
inductive Streams (r : Resolved) (verify : Bool) (source : Source) :
    List SinkEvent → Except Error Nat → Prop where
  | stopped {events : List SinkEvent} {e : Error}
      (hcopies : r.Copies source.finalFault source.pieces 0 events (.error e)) :
      r.Streams verify source events (.error e)
  | rejected {events : List SinkEvent} {n : Nat} {e : Error}
      (hcopies : r.Copies source.finalFault source.pieces 0 events (.ok n))
      (hcheck : r.check verify (accepted events) n = .error e) :
      r.Streams verify source events (.error e)
  | unflushed {events : List SinkEvent} {n : Nat} {refusal : IoFault}
      (hcopies : r.Copies source.finalFault source.pieces 0 events (.ok n))
      (hcheck : r.check verify (accepted events) n = .ok ()) :
      r.Streams verify source (events ++ [.flushed (.error refusal)]) (.error (.io refusal))
  | flushed {events : List SinkEvent} {n : Nat}
      (hcopies : r.Copies source.finalFault source.pieces 0 events (.ok n))
      (hcheck : r.check verify (accepted events) n = .ok ()) :
      r.Streams verify source (events ++ [.flushed (.ok ())]) (.ok n)

theorem stream_journaled (r : Resolved) (verify : Bool) (source : Source) (sink : Sink σ)
    (state : σ) :
    ∃ result final events, r.Streams verify source events result ∧
      r.stream verify source sink.journaled (state, []) =
        (result, (Outlet.start (state, [])).after final events) ∧
      r.stream verify source sink state =
        (result, ((Outlet.start (state, [])).after final events).bare) := by
  obtain ⟨copied, copiedState, events, hcopies, hcopy, hcopyBare⟩ :=
    r.copy_journaled sink source.finalFault source.pieces 0 (.start (state, []))
  -- The bytes that are checked are those of the journal, whether it is kept or not.
  have haccepted : ((Outlet.start (state, [])).after copiedState events).accepted =
      SinkEvent.accepted events := ByteArray.empty_append
  have hacceptedBare : ((Outlet.start (state, [])).after copiedState events).bare.accepted =
      SinkEvent.accepted events := haccepted
  have hstart : (Outlet.start (state, ([] : List SinkEvent))).bare = .start state := rfl
  rw [hstart] at hcopyBare
  rw [stream, hcopy, stream, hcopyBare]
  cases copied with
  | error e => exact ⟨_, _, events, .stopped hcopies, rfl, rfl⟩
  | ok n =>
      dsimp only
      rw [haccepted, hacceptedBare]
      rcases hcheck : r.check verify (SinkEvent.accepted events) n with e | _
      · exact ⟨_, _, events, .rejected hcopies hcheck, rfl, rfl⟩
      · obtain ⟨answer, final, hflush, hflushBare⟩ :=
          ((Outlet.start (state, [])).after copiedState events).flush_journaled sink
        rw [Outlet.after_after] at hflush hflushBare
        dsimp only
        rw [hflush, hflushBare]
        cases answer with
        | error refusal => exact ⟨_, final, _, .unflushed hcopies hcheck, rfl, rfl⟩
        | ok => exact ⟨_, final, _, .flushed hcopies hcheck, rfl, rfl⟩

namespace Streams

variable {r : Resolved} {verify : Bool} {source : Source} {events : List SinkEvent}
  {result : Except Error Nat}

/-- An extraction is a copy, and one that went well may be flushed. -/
theorem copied (h : r.Streams verify source events result) :
    ∃ copied outcome more, r.Copies source.finalFault source.pieces 0 copied outcome ∧
      events = copied ++ more ∧
      (more = [] ∨ ∃ n answer, outcome = .ok n ∧ more = [.flushed answer]) := by
  cases h with
  | stopped hcopies | rejected hcopies =>
    exact ⟨_, _, [], hcopies, (List.append_nil _).symm, .inl rfl⟩
  | unflushed hcopies | flushed hcopies => exact ⟨_, _, _, hcopies, rfl, .inr ⟨_, _, rfl, rfl⟩⟩

theorem begins (h : r.Streams verify source events result) {early late : List SinkEvent}
    (hevents : events = early ++ late) :
    (∃ rest, accepted early ++ rest =
      (source.pieces.take (early.countP isPoll)).foldl (· ++ ·) .empty) ∧
      (accepted early).size ≤ r.entry.size := by
  obtain ⟨copied, outcome, more, hcopies, rfl, hmore⟩ := h.copied
  have hsize := hcopies.size_le (Nat.zero_le _)
  rcases List.append_eq_append_iff.mp hevents with ⟨flushes, rfl, rfl⟩ | ⟨missing, rfl, -⟩
  · -- A flush takes no bytes and is no check.
    have hflushes : accepted flushes = .empty ∧ flushes.countP isPoll = 0 := by
      rcases hmore with hnone | ⟨_, answer, -, hanswer⟩
      · obtain ⟨rfl, -⟩ := List.append_eq_nil_iff.mp hnone
        exact ⟨rfl, rfl⟩
      · rcases List.append_eq_singleton_iff.mp hanswer with ⟨rfl, -⟩ | ⟨rfl, -⟩
        · exact ⟨rfl, rfl⟩
        · exact ⟨rfl, rfl⟩
    rw [accepted_append, hflushes.1, ByteArray.append_empty, List.countP_append, hflushes.2,
      Nat.add_zero]
    exact ⟨hcopies.begins (List.append_nil _).symm, by omega⟩
  · rw [accepted_append, ByteArray.size_append] at hsize
    exact ⟨hcopies.begins rfl, by omega⟩

theorem at_check (h : r.Streams verify source events result) {before after : List SinkEvent}
    {cancelled : Bool} (hcheck : events = before ++ .polled cancelled :: after) :
    before.countP isPoll ≤ source.pieces.length ∧
      accepted before = (source.pieces.take (before.countP isPoll)).foldl (· ++ ·) .empty ∧
      (cancelled = true → after = []) := by
  obtain ⟨copied, outcome, more, hcopies, rfl, hmore⟩ := h.copied
  rcases List.append_eq_append_iff.mp hcheck with ⟨flushes, -, hflush⟩ | ⟨rest, rfl, hrest⟩
  · -- A flush is no check.
    rcases hmore with rfl | ⟨_, answer, -, rfl⟩
    · simp at hflush
    · rcases List.append_eq_singleton_iff.mp hflush.symm with ⟨-, hchecked⟩ | ⟨-, hchecked⟩ <;>
        simp at hchecked
  · rcases List.cons_eq_append_iff.mp hrest with ⟨rfl, hflush⟩ | ⟨later, rfl, rfl⟩
    · rcases hmore with rfl | ⟨_, answer, -, rfl⟩ <;> simp at hflush
    · obtain ⟨hcount, htaken, hstop⟩ := hcopies.at_check rfl
      refine ⟨hcount, htaken, ?_⟩
      rintro rfl
      rcases hmore with rfl | ⟨n, answer, rfl, -⟩
      · rw [hstop rfl, List.append_nil]
      · exact absurd (by simp) hcopies.unseen

theorem cancelled_iff (h : r.Streams verify source events result) :
    result = .error .cancelled ↔ .polled true ∈ events := by
  cases h with
  | stopped hcopies => exact hcopies.cancelled_iff
  | rejected hcopies hcheck =>
      refine ⟨?_, fun hseen => absurd hseen hcopies.unseen⟩
      rintro ⟨⟩
      exact absurd hcheck (r.check_ne_cancelled _ _ _)
  | unflushed hcopies | flushed hcopies => simpa using hcopies.unseen

theorem of_ok {n : Nat} (h : r.Streams verify source events (.ok n)) :
    n = r.entry.size ∧ (accepted events).size = n ∧ accepted events = source.content ∧
      events.countP isPoll = source.pieces.length + 1 ∧
      ∃ before, events = before ++ [.flushed (.ok ())] ∧ before.countP isFlush = 0 := by
  cases h with
  | @flushed copied _ hcopies hcheck =>
      obtain ⟨hn, htaken, hpolls⟩ := hcopies.of_ok rfl
      have haccepted : accepted (copied ++ [.flushed (.ok ())]) = accepted copied := by
        rw [accepted_append, accepted_flushed, ByteArray.append_empty]
      have hsize : n = r.entry.size := by
        rw [check] at hcheck
        split at hcheck
        next => cases hcheck
        next hsize => exact not_not.mp hsize
      refine ⟨hsize, ?_, ?_, ?_, copied, rfl, hcopies.no_flush⟩
      · rw [haccepted, hn, Nat.zero_add]
      · rw [haccepted, htaken, Source.content]
      · rw [List.countP_append, hpolls]
        rfl

/-- A source that was extracted once comes to its end, and what it gives passes the check. -/
theorem sound {n : Nat} (h : r.Streams verify source events (.ok n)) :
    source.finalFault = none ∧ r.check verify source.content source.content.size = .ok () := by
  cases h with
  | @flushed copied _ hcopies hcheck =>
      obtain ⟨hn, htaken, -⟩ := hcopies.of_ok rfl
      have hcontent : accepted copied = source.content := htaken
      rw [Nat.zero_add, hcontent] at hn
      rw [hcontent, hn] at hcheck
      exact ⟨hcopies.no_fault rfl, hcheck⟩

theorem flush_of_error {e : Error} (h : r.Streams verify source events (.error e)) :
    events.countP isFlush = 0 ∨ ∃ before refusal, events = before ++ [.flushed (.error refusal)] ∧
      before.countP isFlush = 0 ∧ e = .io refusal := by
  cases h with
  | stopped hcopies | rejected hcopies => exact .inl hcopies.no_flush
  | unflushed hcopies => exact .inr ⟨_, _, rfl, hcopies.no_flush, rfl⟩

end Streams

end Resolved

/-- For every source, sink and moment at which the sign to stop may be given: what a sink has taken
is at all times the beginning of the content, of the pieces for which there was a check, and not
longer than recorded. An extraction that succeeds has passed on the whole content, has never seen
the sign and has flushed once; one that sees the sign does nothing more; and one that fails does
not flush, unless it fails because of that. -/
theorem extraction_journal {σ : Type} (sink : Sink σ) (state : σ) (r : Resolved) (verify : Bool)
    (source : Source) :
    let outcome := r.stream verify source sink.journaled (state, [])
    let result := outcome.1
    let journal := outcome.2.state.2
    r.stream verify source sink state = (result, outcome.2.bare) ∧
    (∀ d, r.archive.source d r.entry.handle = .ok source →
      r.extract d verify sink state = (result, outcome.2.bare)) ∧
    (∀ d e, r.archive.source d r.entry.handle = .error e →
      r.extract d verify sink state = (.error e, .start state)) ∧
    (outcome.2.accepted = accepted journal ∧ outcome.2.flushes = journal.countP isFlush) ∧
    (∀ early late, journal = early ++ late →
      (∃ rest, accepted early ++ rest = source.content) ∧
      (∃ rest, accepted early ++ rest =
        (source.pieces.take (early.countP isPoll)).foldl (· ++ ·) .empty) ∧
      (accepted early).size ≤ r.entry.size) ∧
    (∀ before cancelled after, journal = before ++ .polled cancelled :: after →
      before.countP isPoll ≤ source.pieces.length ∧
      accepted before = (source.pieces.take (before.countP isPoll)).foldl (· ++ ·) .empty) ∧
    (∀ n, result = .ok n →
      n = r.entry.size ∧ (accepted journal).size = n ∧ accepted journal = source.content ∧
      .polled true ∉ journal ∧ journal.countP isPoll = source.pieces.length + 1 ∧
      ∃ before, journal = before ++ [.flushed (.ok ())] ∧ before.countP isFlush = 0) ∧
    (result = .error .cancelled ↔ .polled true ∈ journal) ∧
    (∀ before after, journal = before ++ .polled true :: after → after = []) ∧
    ∀ e, result = .error e → journal.countP isFlush = 0 ∨
      ∃ before refusal, journal = before ++ [.flushed (.error refusal)] ∧
        before.countP isFlush = 0 ∧ e = .io refusal := by
  obtain ⟨result, final, events, hstreams, hjournaled, hbare⟩ :=
    r.stream_journaled verify source sink state
  have hevents : (Outlet.start (state, [])).after final events =
      ⟨(final, events), accepted events, events.countP isFlush⟩ := by
    simp [Outlet.after, Outlet.start, ByteArray.empty_append]
  rw [hevents] at hjournaled hbare
  rw [hjournaled]
  refine ⟨hbare, ?_, ?_, ⟨rfl, rfl⟩, ?_, ?_, ?_, hstreams.cancelled_iff, ?_, ?_⟩
  · intro d hsource
    rw [Resolved.extract, hsource]
    exact hbare
  · intro d e hsource
    rw [Resolved.extract, hsource, Resolved.deliver]
  · intro early late hjournal
    obtain ⟨⟨rest, hrest⟩, hsize⟩ := hstreams.begins hjournal
    refine ⟨⟨rest ++ (source.pieces.drop (early.countP isPoll)).foldl (· ++ ·) .empty, ?_⟩,
      ⟨rest, hrest⟩, hsize⟩
    rw [← ByteArray.append_assoc, hrest, ← Bytes.foldl_append, ← List.foldl_append,
      List.take_append_drop, Source.content]
  · intro before cancelled after hjournal
    obtain ⟨hcount, htaken, -⟩ := hstreams.at_check hjournal
    exact ⟨hcount, htaken⟩
  · rintro n rfl
    obtain ⟨hn, hsize, htaken, hpolls, hflush⟩ := hstreams.of_ok
    refine ⟨hn, hsize, htaken, ?_, hpolls, hflush⟩
    intro hseen
    cases hstreams.cancelled_iff.mpr hseen
  · intro before after hjournal
    exact (hstreams.at_check hjournal).2.2 rfl
  · rintro e rfl
    exact hstreams.flush_of_error

end ArchiveOverlay
