import ArchiveOverlay.Archive.Memory
import ArchiveOverlay.Proofs.Extract.Streaming

namespace ArchiveOverlay

def Reading.data : Reading → ByteArray
  | bytes data => data
  | interrupted => .empty

namespace Source

/-- The bytes of all readings, put together. -/
def delivered (s : Source) : ByteArray :=
  (s.readings.map Reading.data).foldl (· ++ ·) .empty

/-- That no reading is empty, so that nothing stops the source before its end or its fault. -/
def Unbroken (s : Source) : Prop :=
  ∀ data, .bytes data ∈ s.readings → data.size ≠ 0

theorem piecesOf_unbroken {readings : List Reading}
    (h : ∀ data, .bytes data ∈ readings → data.size ≠ 0) (fault : Option IoFault)
    (start : ByteArray) :
    (piecesOf fault readings).1.foldl (· ++ ·) start =
        (readings.map Reading.data).foldl (· ++ ·) start ∧
      (piecesOf fault readings).2 = fault := by
  induction readings generalizing start with
  | nil => exact ⟨rfl, rfl⟩
  | cons reading readings ih =>
      have hrest := ih fun data hdata => h data (List.mem_cons_of_mem _ hdata)
      cases reading with
      | interrupted =>
          obtain ⟨hpieces, hfault⟩ := hrest start
          refine ⟨?_, hfault⟩
          rw [piecesOf, hpieces, List.map_cons, List.foldl_cons, Reading.data,
            ByteArray.append_empty]
      | bytes data =>
          obtain ⟨hpieces, hfault⟩ := hrest (start ++ data)
          rw [piecesOf, if_neg (h data List.mem_cons_self)]
          exact ⟨hpieces, hfault⟩

theorem Unbroken.content_eq {s : Source} (h : s.Unbroken) : s.content = s.delivered :=
  (piecesOf_unbroken h s.fault .empty).1

theorem Unbroken.finalFault_eq {s : Source} (h : s.Unbroken) : s.finalFault = s.fault :=
  (piecesOf_unbroken h s.fault .empty).2

end Source

namespace Resolved

variable {σ : Type} {sink : Sink σ} {r : Resolved} {source : Source} {fault : IoFault}

theorem readFault_of_io (r : Resolved) (written : Nat) (hdata : fault ≠ .invalidData)
    (hend : fault ≠ .unexpectedEnd) : r.readFault written fault = .io fault := by
  cases fault <;> first | rfl | contradiction

theorem readFault_of_short (h : fault = .invalidData ∨ fault = .unexpectedEnd) {written : Nat}
    (hshort : written ≠ r.entry.size) : r.readFault written fault = r.corrupt written := by
  rcases h with rfl | rfl
  · rw [readFault, if_neg hshort]
  · rfl

theorem check_of_short (verify : Bool) {content : ByteArray} (h : content.size ≠ r.entry.size) :
    r.check verify content content.size = .error (r.corrupt content.size) := by
  rw [check, if_pos h]

theorem check_of_size (verify : Bool) {content : ByteArray} (h : content.size = r.entry.size) :
    r.check verify content content.size =
      if verify = true ∧ Digest.xxh3 content ≠ r.entry.checksum then
        .error (.checksumMismatch r.entry.display.text r.winner r.entry.checksum
          (Digest.xxh3 content))
      else .ok () := by
  rw [check, if_neg (not_not.mpr h)]
  simp only [Bool.and_eq_true, decide_eq_true_eq]

theorem stream_short (hsink : sink.Willing) (hsource : source.Unbroken)
    (h : source.delivered.size < r.entry.size)
    (hend : source.fault = none ∨ source.fault = some .invalidData ∨
      source.fault = some .unexpectedEnd) (verify : Bool) (state : σ) :
    (r.stream verify source sink state).1 = .error (r.corrupt source.delivered.size) := by
  rw [← hsource.content_eq] at h ⊢
  rw [← hsource.finalFault_eq] at hend
  have hfaulty : ∀ fault, source.finalFault = some fault →
      fault = .invalidData ∨ fault = .unexpectedEnd →
      (r.stream verify source sink state).1 = .error (r.corrupt source.content.size) := by
    intro fault hfault hkind
    rw [stream_fault hsink hfault h.le, readFault_of_short hkind h.ne]
  rcases hend with hfault | hfault | hfault
  · obtain ⟨state', hstream⟩ := exists_stream_ended hsink hfault h.le verify state
    rw [hstream, check_of_short verify h.ne]
  · exact hfaulty _ hfault (.inl rfl)
  · exact hfaulty _ hfault (.inr rfl)

theorem stream_full (hsink : sink.Willing) (hsource : source.Unbroken)
    (h : source.delivered.size = r.entry.size) (hend : source.fault = none) (verify : Bool)
    (state : σ) :
    if verify = true ∧ Digest.xxh3 source.delivered ≠ r.entry.checksum then
      (r.stream verify source sink state).1 =
        .error (.checksumMismatch r.entry.display.text r.winner r.entry.checksum
          (Digest.xxh3 source.delivered))
    else
      (r.stream verify source sink state).1 = .ok r.entry.size ∧
        (r.stream verify source sink state).2.accepted = source.delivered := by
  rw [← hsource.content_eq] at h ⊢
  rw [← hsource.finalFault_eq] at hend
  obtain ⟨state', hstream⟩ := exists_stream_ended hsink hend h.le verify state
  rw [check_of_size verify h] at hstream
  split
  next hdiffers => rw [hstream, if_pos hdiffers]
  next hsame =>
    rw [hstream, if_neg hsame]
    exact ⟨congrArg Except.ok h, rfl⟩

/-- Up to the recorded size, only the bytes that arrive and their end count. -/
theorem stream_eq_of_delivered {source' : Source} (hsink : sink.Willing)
    (hsource : source.Unbroken) (hsource' : source'.Unbroken)
    (hdelivered : source'.delivered = source.delivered)
    (hfault : source'.fault = source.fault) (h : source.delivered.size ≤ r.entry.size)
    (verify : Bool) (state : σ) :
    (r.stream verify source' sink state).1 = (r.stream verify source sink state).1 := by
  rw [← hsource.content_eq, ← hsource'.content_eq] at hdelivered
  rw [← hsource.finalFault_eq, ← hsource'.finalFault_eq] at hfault
  rw [← hsource.content_eq] at h
  have h' : source'.content.size ≤ r.entry.size := by rwa [hdelivered]
  cases hend : source.finalFault with
  | some fault =>
      rw [stream_fault hsink hend h, stream_fault hsink (hfault.trans hend) h', hdelivered]
  | none =>
      obtain ⟨ended, hstream⟩ := exists_stream_ended hsink hend h verify state
      obtain ⟨ended', hstream'⟩ := exists_stream_ended hsink (hfault.trans hend) h' verify state
      rw [hstream, hstream', hdelivered]
      cases r.check verify source.content source.content.size <;> rfl

end Resolved

/-- What extraction returns when nobody cancels it and the sink takes everything: the recorded size
and checksum against the bytes that arrive, and against how they end. Content that is too long is
noticed at the first reading that goes beyond the size, and what would come after that does not
matter. -/
theorem extract_outcome {σ : Type} {sink : Sink σ} (hsink : sink.Willing) (r : Resolved)
    (verify : Bool) (state : σ) {source : Source} (hsource : source.Unbroken) :
    let size := r.entry.size
    let content := source.delivered
    let path := r.entry.display.text
    let outcome := r.stream verify source sink state
    (∀ d, r.archive.source d r.entry.handle = .ok source →
      r.extract d verify sink state = outcome) ∧
    (size < content.size → ∃ actual, size < actual ∧ actual ≤ content.size ∧
      outcome.1 = .error (.corruptEntry path r.winner size actual)) ∧
    (content.size < size →
      source.fault = none ∨ source.fault = some .invalidData ∨ source.fault = some .unexpectedEnd →
      outcome.1 = .error (.corruptEntry path r.winner size content.size)) ∧
    (content.size = size → source.fault = some .invalidData →
      outcome.1 = .error (.containerChecksumMismatch path r.winner)) ∧
    (content.size = size → source.fault = some .unexpectedEnd →
      outcome.1 = .error (.corruptEntry path r.winner size size)) ∧
    (content.size ≤ size → ∀ fault, source.fault = some fault → fault ≠ .invalidData →
      fault ≠ .unexpectedEnd → outcome.1 = .error (.io fault)) ∧
    (content.size = size → source.fault = none →
      if verify = true ∧ Digest.xxh3 content ≠ r.entry.checksum then
        outcome.1 = .error (.checksumMismatch path r.winner r.entry.checksum (Digest.xxh3 content))
      else outcome.1 = .ok size ∧ outcome.2.accepted = content) ∧
    ∀ source' : Source, source'.Unbroken → source'.delivered = content →
      source'.fault = source.fault →
      let outcome' := r.stream verify source' sink state
      outcome'.1 = outcome.1 ∨
        ∃ actual actual', outcome.1 = .error (.corruptEntry path r.winner size actual) ∧
          outcome'.1 = .error (.corruptEntry path r.winner size actual') := by
  intro size content path outcome
  have hexceeding : ∀ source : Source, source.Unbroken → size < source.delivered.size →
      ∃ actual, size < actual ∧ actual ≤ source.delivered.size ∧
        (r.stream verify source sink state).1 =
          .error (.corruptEntry path r.winner size actual) := by
    intro source hsource hmore
    rw [← hsource.content_eq] at hmore ⊢
    exact Resolved.stream_exceeding hsink hmore verify state
  have hfaulty : ∀ fault, source.fault = some fault → content.size ≤ size →
      outcome.1 = .error (r.readFault content.size fault) := by
    intro fault hfault hsize
    have hcontent : source.content = content := hsource.content_eq
    rw [← hsource.finalFault_eq] at hfault
    rw [← hcontent] at hsize ⊢
    exact Resolved.stream_fault hsink hfault hsize verify state
  refine ⟨?_, hexceeding source hsource, ?_, ?_, ?_, ?_, ?_, ?_⟩
  · intro d hd
    rw [Resolved.extract, hd, Resolved.deliver]
  · intro hshort hend
    exact Resolved.stream_short hsink hsource hshort hend verify state
  · intro hsize hfault
    rw [hfaulty _ hfault hsize.le, Resolved.readFault, if_pos hsize]
  · intro hsize hfault
    rw [hfaulty _ hfault hsize.le, hsize]
    rfl
  · intro hsize fault hfault hdata hend
    rw [hfaulty _ hfault hsize, r.readFault_of_io _ hdata hend]
  · intro hsize hend
    exact Resolved.stream_full hsink hsource hsize hend verify state
  · intro source' hsource' hdelivered hfault outcome'
    rcases Nat.lt_or_ge size content.size with hmore | hsize
    · obtain ⟨actual, -, -, hresult⟩ := hexceeding source hsource hmore
      obtain ⟨actual', -, -, hresult'⟩ := hexceeding source' hsource' (by rwa [hdelivered])
      exact .inr ⟨actual, actual', hresult, hresult'⟩
    · exact .inl (Resolved.stream_eq_of_delivered hsink hsource hsource' hdelivered hfault hsize
        verify state)

theorem extract_outcome_split : ∃ a r,
    Archive.ofMemory ⟨"base"⟩ [.faithful "a" ⟨#[1, 2]⟩] = .ok a ∧
    (⟨[a]⟩ : Overlay).resolve "a" = .ok r ∧
    let readings := [.bytes ⟨#[1]⟩, .interrupted, .bytes ⟨#[2]⟩]
    let outcome := fun source => r.stream true source (.unlimited false) ()
    (outcome ⟨readings, none⟩).1 = .ok 2 ∧
    (outcome ⟨readings, none⟩).2.accepted = ⟨#[1, 2]⟩ ∧
    (outcome ⟨readings, some .invalidData⟩).1 =
      .error (.containerChecksumMismatch "a" ⟨"base"⟩) ∧
    (outcome ⟨readings, some (.other "timed out")⟩).1 = .error (.io (.other "timed out")) ∧
    (outcome ⟨readings ++ [.bytes ⟨#[3]⟩], some .invalidData⟩).1 =
      .error (.corruptEntry "a" ⟨"base"⟩ 2 3) := by
  have hload : ∃ a r, Archive.ofMemory ⟨"base"⟩ [.faithful "a" ⟨#[1, 2]⟩] = .ok a ∧
      (⟨[a]⟩ : Overlay).resolve "a" = .ok r ∧ r.entry.size = 2 ∧
      r.entry.checksum = Digest.xxh3 ⟨#[1, 2]⟩ ∧ r.entry.display.text = "a" ∧
      r.winner = ⟨"base"⟩ := ⟨_, _, rfl, rfl, rfl, rfl, rfl, rfl⟩
  obtain ⟨a, r, ha, hr, hsize, hchecksum, hpath, hwinner⟩ := hload
  have hlonger : ∀ fault, Source.Unbroken
      ⟨[.bytes ⟨#[1]⟩, .interrupted, .bytes ⟨#[2]⟩, .bytes ⟨#[3]⟩], fault⟩ := by
    intro fault data hdata
    simp only [List.mem_cons, Reading.bytes.injEq, reduceCtorEq, false_or, List.not_mem_nil,
      or_false] at hdata
    rcases hdata with rfl | rfl | rfl <;> decide
  have hreadings : ∀ fault,
      Source.Unbroken ⟨[.bytes ⟨#[1]⟩, .interrupted, .bytes ⟨#[2]⟩], fault⟩ :=
    fun fault data hdata => hlonger fault data (List.mem_append_left [_] hdata)
  have hbytes : ∀ fault, Source.delivered
      ⟨[.bytes ⟨#[1]⟩, .interrupted, .bytes ⟨#[2]⟩], fault⟩ = ⟨#[1, 2]⟩ := fun _ => rfl
  have hfull : ∀ fault, (Source.delivered
      ⟨[.bytes ⟨#[1]⟩, .interrupted, .bytes ⟨#[2]⟩], fault⟩).size = r.entry.size := by
    intro fault
    rw [hbytes, hsize]
    rfl
  have houtcome := @extract_outcome _ _ Sink.willing_unlimited r true ()
  obtain ⟨-, -, -, -, -, -, hended, -⟩ := houtcome (hreadings none)
  obtain ⟨-, -, -, hdamaged, -⟩ := houtcome (hreadings (some .invalidData))
  obtain ⟨-, -, -, -, -, hfailed, -⟩ := houtcome (hreadings (some (.other "timed out")))
  obtain ⟨-, hexceeding, -⟩ := houtcome (hlonger (some .invalidData))
  -- The comparison of digests goes first: the unifier would compute them.
  rw [hbytes, if_neg (fun hdiffers => hdiffers.2 hchecksum.symm), hsize] at hended
  rw [hpath, hwinner] at hdamaged
  obtain ⟨actual, hmore, hle, hresult⟩ := hexceeding (by rw [hsize]; decide)
  obtain rfl : actual = 3 := by
    rw [hsize] at hmore
    exact le_antisymm hle hmore
  rw [hpath, hwinner, hsize] at hresult
  obtain ⟨hintact, haccepted⟩ := hended rfl rfl
  exact ⟨a, r, ha, hr, hintact, haccepted, hdamaged (hfull _) rfl,
    hfailed (hfull _).le _ rfl (by decide) (by decide), hresult⟩

end ArchiveOverlay
