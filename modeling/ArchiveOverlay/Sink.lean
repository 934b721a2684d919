import ArchiveOverlay.Error

namespace ArchiveOverlay

/-- Where extracted bytes go, as three operations on a state, together with the sign to stop. -/
structure Sink (σ : Type) where
  /-- Looks whether the work has been cancelled. -/
  poll : σ → Bool × σ
  /-- Offers bytes and learns how many have been taken. -/
  write : σ → ByteArray → Except IoFault Nat × σ
  flush : σ → Except IoFault Unit × σ

/-- A sink that takes everything, and a sign that does not change. -/
def Sink.unlimited (cancelled : Bool) : Sink Unit where
  poll _ := (cancelled, ())
  write _ data := (.ok data.size, ())
  flush _ := (.ok (), ())

/-- A sink that takes everything, with a sign that others set. -/
def Sink.cancellable : Sink Bool where
  poll cancelled := (cancelled, cancelled)
  write cancelled data := (.ok data.size, cancelled)
  flush cancelled := (.ok (), cancelled)

/-- A sink at work: its state, and what has passed into it. -/
structure Outlet (σ : Type) where
  state : σ
  /-- All bytes taken so far. -/
  accepted : ByteArray
  /-- How often a flush was asked for. -/
  flushes : Nat

namespace Outlet

variable {σ : Type}

def start (state : σ) : Outlet σ :=
  ⟨state, .empty, 0⟩

def poll (sink : Sink σ) (o : Outlet σ) : Bool × Outlet σ :=
  let (cancelled, state) := sink.poll o.state
  (cancelled, { o with state })

/-- Writes all bytes, however few the sink takes at a time. A sink that takes none makes it
fail. -/
def writeAll (sink : Sink σ) (o : Outlet σ) (data : ByteArray) : Except IoFault Unit × Outlet σ :=
  if data.size = 0 then (.ok (), o)
  else
    match sink.write o.state data with
    | (.error fault, state) => (.error fault, { o with state })
    | (.ok 0, state) => (.error .writeZero, { o with state })
    | (.ok (n + 1), state) =>
      let taken := data.extract 0 (n + 1)
      writeAll sink { o with state, accepted := o.accepted ++ taken }
        (data.extract (n + 1) data.size)
termination_by data.size
decreasing_by
  simp only [ByteArray.size_extract]
  omega

def flush (sink : Sink σ) (o : Outlet σ) : Except IoFault Unit × Outlet σ :=
  let (result, state) := sink.flush o.state
  (result, { o with state, flushes := o.flushes + 1 })

end Outlet

end ArchiveOverlay
