import Retrace.ThreadRun
import Mathlib.Algebra.Ring.Int.Defs

/-! Several coordinate jumps within one instruction. Each of them starts from the same source, while
the bias already stands for the target of the one before. -/

set_option autoImplicit false

namespace Retrace

def jumpsFrom (source : Int) (targets : List Nat) : List (Int × Int) :=
  targets.map (fun (target : Nat) => (source, (target : Int)))

def totalDistance (source : Int) (targets : List Nat) : Int :=
  (targets.map (fun (target : Nat) => (target : Int) - source)).sum

/-- The instruction jumps, and its last target comes behind it. -/
def JumpsForward (frame : InterpreterFrame) (targets : List Nat) (last : Nat) : Prop :=
  frameCoordinate frame < frameCoordinate (moveFrame frame (jumpsFrom frame.lasti targets) last)

section jumps
variable {frame : InterpreterFrame} {source : Int} {targets : List Nat}

theorem totalDistance_concat (source : Int) (targets : List Nat) (target : Nat) :
    totalDistance source (targets ++ [target]) =
      totalDistance source targets + (target - source) := by
  simp [totalDistance]

theorem jumpsFrom_bias (frame : InterpreterFrame) (source : Int) (targets : List Nat)
    (offset : Nat) : (moveFrame frame (jumpsFrom source targets) offset).coordinateBias =
      frame.coordinateBias + targets.length - totalDistance source targets := by
  unfold moveFrame jumpsFrom totalDistance
  dsimp only
  induction targets generalizing frame with
  | nil => simp
  | cons target targets ih =>
    simp only [List.map_cons, List.foldl_cons, List.length_cons, List.sum_cons]
    rw [ih]
    unfold coordinateJump
    dsimp only
    omega

/-- The last jump brings its target to the coordinate behind the source, less the distances of the
jumps before it, but for one that each of them adds. -/
theorem jumpsFrom_coordinate (frame : InterpreterFrame) (targets : List Nat) (last : Nat) :
    frameCoordinate (moveFrame frame (jumpsFrom frame.lasti (targets ++ [last])) last) =
      (frame.coordinateBias + frame.lasti + 1 + targets.length -
        totalDistance frame.lasti targets).toNat := by
  have hbias := jumpsFrom_bias frame frame.lasti (targets ++ [last]) last
  rw [totalDistance_concat, List.length_append, List.length_singleton] at hbias
  have hlasti : (moveFrame frame (jumpsFrom frame.lasti (targets ++ [last])) last).lasti = last :=
    rfl
  unfold frameCoordinate
  rw [hbias, hlasti]
  congr 1
  push_cast
  omega

/-- Jumps from one instruction bring their last target behind it exactly if the jumps before the
last one go, all together, less far ahead than there are jumps. -/
theorem jumpsForward_iff (hplaced : 0 ≤ frame.coordinateBias + frame.lasti)
    (hjumps : targets ≠ []) : JumpsForward frame targets (targets.getLast hjumps) ↔
      totalDistance frame.lasti targets.dropLast < targets.length := by
  have hlength : targets.dropLast.length + 1 = targets.length := by
    rw [List.length_dropLast]
    have hpos := List.length_pos_of_ne_nil hjumps
    omega
  have hcoordinate := jumpsFrom_coordinate frame targets.dropLast (targets.getLast hjumps)
  rw [List.dropLast_append_getLast hjumps] at hcoordinate
  have hbefore : frameCoordinate frame = (frame.coordinateBias + frame.lasti).toNat := rfl
  unfold JumpsForward
  rw [hcoordinate, hbefore]
  omega

theorem jumpsFrom_single (hplaced : 0 ≤ frame.coordinateBias + frame.lasti) (target : Nat) :
    frameCoordinate (moveFrame frame (jumpsFrom frame.lasti [target]) target) =
      frameCoordinate frame + 1 := by
  have hcoordinate := jumpsFrom_coordinate frame [] target
  have hnone : totalDistance frame.lasti [] = 0 := rfl
  rw [List.nil_append, hnone, List.length_nil] at hcoordinate
  have hbefore : frameCoordinate frame = (frame.coordinateBias + frame.lasti).toNat := rfl
  rw [hcoordinate, hbefore]
  omega

end jumps

def atFour : InterpreterFrame := newFrame 4 0

theorem jumpsForward_iff_back : JumpsForward atFour [2, 9] 9 :=
  (@jumpsForward_iff atFour [2, 9] (by decide) (by decide)).mpr (by decide)

/-- The instruction skips two cache entries and then branches back: its target comes before it. -/
theorem jumpsForward_skip : 0 ≤ atFour.coordinateBias + atFour.lasti ∧
    frameCoordinate atFour = 4 ∧
    frameCoordinate (moveFrame atFour (jumpsFrom atFour.lasti [7, 2]) 2) = 3 ∧
    ¬JumpsForward atFour [7, 2] 2 := by
  unfold JumpsForward
  decide

end Retrace
