import CaravelSoc.Housekeeping.System
import CaravelSoc.Pads.SerialChain

/-!
# Housekeeping with the pad ring

The housekeeping module and the 38 control blocks its serial loader drives. The
blocks react to the serial lines as they are before and after each event.
-/

namespace CaravelSoc

namespace Housekeeping

/-- The serial loader outputs as the pad ring sees them. -/
def serialLines (s : Housekeeping) : Pads.SerialLines where
  clock := s.serialClock
  load := s.serialLoad
  resetn := s.serialResetn
  data1 := s.serialData1
  data2 := s.serialData2

end Housekeeping

structure Soc where
  hk : Housekeeping
  pads : Pads.Blocks

namespace Soc

def step (s : Soc) (e : Event) : Soc where
  hk := s.hk.step e
  pads := Pads.follow s.hk.serialLines (s.hk.step e).serialLines s.pads

@[simp]
theorem step_hk (s : Soc) (e : Event) : (s.step e).hk = s.hk.step e := rfl

/-- The pad ring does not act on the housekeeping module. -/
theorem run_hk (s : Soc) (es : List Event) :
    (Sequential.run step s es).hk = Sequential.run Housekeeping.step s.hk es := by
  induction es generalizing s with
  | nil => rfl
  | cons e rest ih => exact ih (s.step e)

theorem always_hk_iff {Q : Housekeeping → Prop} {s : Soc} {es : List Event} :
    Sequential.Always step (fun t ↦ Q t.hk) s es ↔
      Sequential.Always Housekeeping.step Q s.hk es := by
  induction es generalizing s with
  | nil => exact Iff.rfl
  | cons e rest ih => exact and_congr Iff.rfl (ih (s := s.step e))

end Soc

/-- The edges on the serial lines that the pad ring reacts to. -/
inductive SerialEdge
  | clockRise
  | loadRise
  deriving DecidableEq, Repr

namespace Pads.SerialLines

def edges (old new : SerialLines) : List SerialEdge :=
  (if old.clockRises new then [SerialEdge.clockRise] else []) ++
    if old.loadRises new then [SerialEdge.loadRise] else []

theorem edges_same (lines : SerialLines) : lines.edges lines = [] := by
  simp [edges, clockRises, loadRises]

end Pads.SerialLines

/-- The serial edges made by one event. -/
def Soc.serialEdges (s : Soc) (e : Event) : List SerialEdge :=
  s.hk.serialLines.edges (s.hk.step e).serialLines

end CaravelSoc
