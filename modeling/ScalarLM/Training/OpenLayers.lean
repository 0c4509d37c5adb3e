import ScalarLM.Training.PlainPass

/-! The passes of a wrapped model by what is open: a layer is opened when it gathers its
parameters and closed when it frees them, and in between its module reads the gathers. -/

namespace ScalarLM.Training

open ScalarLM.Computation
open Loop (Transfer)

structure OpenLayers where
  opened : Path → Bool
  saves : Option Nat

def OpenLayers.closed : OpenLayers := ⟨fun _ => false, none⟩

abbrev Layered (ρ : Type) := Computation OpenLayers Transfer Cause ρ

def OpenLayers.mark (layers : OpenLayers) (path : Path) (value : Bool) : OpenLayers :=
  { layers with opened := fun other => if other = path then value else layers.opened other }

def enter (path : Path) (parameters : Dict Name Nat) : Layered Unit := fun layers =>
  ⟨layerTransfers path parameters, layers.mark path true, .ok ()⟩

def leave (path : Path) : Layered Unit := modifies fun layers => layers.mark path false

def layeredSave : Layered Unit := fun layers =>
  match layers.saves with
  | none => ⟨[], layers, .ok ()⟩
  | some 0 => ⟨[], layers, .error .stopped⟩
  | some (left + 1) => ⟨[], { layers with saves := some left }, .ok ()⟩

def layeredUntilSaved {V : Type} (saves : Nat) (computation : Layered V) : Layered Unit :=
  fun layers =>
    let ran := computation { layers with saves := some saves }
    ⟨ran.issued, { ran.state with saves := none },
      match ran.result with
      | .error .raised => .error .raised
      | _ => .ok ()⟩

/-- What the wrapped model does where the plain one comes by. -/
def come : Visit → Layered Unit
  | .entered layer parameters => enter layer parameters
  | .left layer => leave layer
  | .kept => layeredSave
  | .replaced _ => throws .raised
  | .passed transfer => issues transfer

def Running (layers : OpenLayers) : Prop := layers.saves = none

section Visits

def OpenLayers.visited (layers : OpenLayers) : Visit → OpenLayers
  | .entered layer _ => layers.mark layer true
  | .left layer => layers.mark layer false
  | _ => layers

theorem noneReplaced_cons (visit : Visit) (rest : List Visit) :
    NoneReplaced (visit :: rest) ↔ (∀ child, visit ≠ .replaced child) ∧ NoneReplaced rest := by
  constructor
  · intro none
    refine ⟨fun child same => none child (same ▸ List.mem_cons_self), fun child later => ?_⟩
    exact none child (List.mem_cons_of_mem _ later)
  · intro both child member
    rcases List.mem_cons.mp member with same | later
    · exact both.1 child same.symm
    · exact both.2 child later

theorem visited_running (layers : OpenLayers) (visit : Visit) (running : Running layers) :
    Running (layers.visited visit) := by
  cases visit <;> exact running

theorem come_visited (visit : Visit) (layers : OpenLayers) (running : Running layers)
    (kept : ∀ child, visit ≠ .replaced child) :
    come visit layers = ⟨visit.transfers, layers.visited visit, .ok ()⟩ := by
  cases visit with
  | entered layer parameters => rfl
  | left layer => rfl
  | kept =>
      rw [come, layeredSave, running]
      rfl
  | replaced child => exact absurd rfl (kept child)
  | passed transfer => rfl

theorem forEach_come (visits : List Visit) (layers : OpenLayers) (running : Running layers)
    (kept : NoneReplaced visits) :
    forEach come visits layers =
      ⟨visits.flatMap Visit.transfers, visits.foldl OpenLayers.visited layers, .ok ()⟩ := by
  induction visits generalizing layers with
  | nil => rfl
  | cons visit rest ih =>
      rw [noneReplaced_cons] at kept
      have first := come_visited visit layers running kept.1
      rw [forEach, andThen_ok (congrArg Ran.result first), first,
        ih _ (visited_running layers visit running) kept.2]
      rfl

/-- A replaced child is no module any more: calling it raises. -/
theorem forEach_come_raises (visits : List Visit) (layers : OpenLayers) (running : Running layers)
    (replaced : ¬ NoneReplaced visits) :
    (forEach come visits layers).result = .error .raised := by
  induction visits generalizing layers with
  | nil => exact absurd (fun _ member => absurd member List.not_mem_nil) replaced
  | cons visit rest ih =>
      rw [forEach]
      by_cases kept : ∀ child, visit ≠ .replaced child
      · have first := come_visited visit layers running kept
        rw [andThen_ok (congrArg Ran.result first), first]
        refine ih _ (visited_running layers visit running) fun later => replaced ?_
        exact (noneReplaced_cons _ _).mpr ⟨kept, later⟩
      · push Not at kept
        obtain ⟨child, rfl⟩ := kept
        rw [andThen_error rfl]

theorem forEach_come_running (visits : List Visit) (layers : OpenLayers)
    (running : Running layers) : Running (forEach come visits layers).state := by
  induction visits generalizing layers with
  | nil => exact running
  | cons visit rest ih =>
      rw [forEach]
      by_cases kept : ∀ child, visit ≠ .replaced child
      · have first := come_visited visit layers running kept
        rw [andThen_ok (congrArg Ran.result first), first]
        exact ih _ (visited_running layers visit running)
      · push Not at kept
        obtain ⟨child, rfl⟩ := kept
        rw [andThen_error rfl]
        exact running

theorem come_saving (visit : Visit) (counts : visit ≠ .kept) (opened : Path → Bool)
    (saves : Option Nat) :
    come visit ⟨opened, saves⟩ =
      ⟨(come visit ⟨opened, none⟩).issued, ⟨(come visit ⟨opened, none⟩).state.opened, saves⟩,
        (come visit ⟨opened, none⟩).result⟩ := by
  cases visit with
  | kept => exact absurd rfl counts
  | entered layer parameters => rfl
  | left layer => rfl
  | replaced child => rfl
  | passed transfer => rfl

theorem upToLast_cons (visit : Visit) (counts : visit ≠ .kept) (saves : Nat)
    (rest : List Visit) : upToLast saves (visit :: rest) = visit :: upToLast saves rest := by
  cases visit with
  | kept => exact absurd rfl counts
  | entered layer parameters => rw [upToLast] <;> simp
  | left layer => rw [upToLast] <;> simp
  | replaced child => rw [upToLast] <;> simp
  | passed transfer => rw [upToLast] <;> simp

theorem come_running (visit : Visit) (layers : OpenLayers) (running : Running layers) :
    Running (come visit layers).state := by
  cases visit with
  | kept =>
      rw [come, layeredSave, running]
      exact running
  | entered layer parameters => exact running
  | left layer => exact running
  | replaced child => exact running
  | passed transfer => exact running

/-- A recomputation does what any pass does up to the last tensor, and stops there. -/
theorem forEach_come_saving (visits : List Visit) (saves : Nat) (opened : Path → Bool) :
    (forEach come visits ⟨opened, some saves⟩).issued =
        (forEach come (upToLast saves visits) ⟨opened, none⟩).issued ∧
      (forEach come visits ⟨opened, some saves⟩).state.opened =
        (forEach come (upToLast saves visits) ⟨opened, none⟩).state.opened ∧
      ((forEach come visits ⟨opened, some saves⟩).result = .error .raised ↔
        (forEach come (upToLast saves visits) ⟨opened, none⟩).result = .error .raised) := by
  induction visits generalizing saves opened with
  | nil => exact ⟨rfl, rfl, Iff.rfl⟩
  | cons visit rest ih =>
      by_cases counts : visit = .kept
      · subst counts
        cases saves with
        | zero =>
            refine ⟨rfl, rfl, fun raised => ?_, fun raised => ?_⟩
            · cases raised
            · cases raised
        | succ left => exact ih left opened
      · have saving := come_saving visit counts opened (some saves)
        have running := come_running visit ⟨opened, none⟩ rfl
        rw [upToLast_cons visit counts, forEach, forEach]
        cases ended : (come visit ⟨opened, none⟩).result with
        | error cause =>
            rw [andThen_error ((congrArg Ran.result saving).trans ended), andThen_error ended,
              saving]
            exact ⟨rfl, rfl, Iff.rfl⟩
        | ok last =>
            rw [andThen_ok ((congrArg Ran.result saving).trans ended), andThen_ok ended, saving]
            have same : (come visit ⟨opened, none⟩).state =
                ⟨(come visit ⟨opened, none⟩).state.opened, none⟩ :=
              congrArg (OpenLayers.mk _) running
            rw [same]
            obtain ⟨issued, still, raised⟩ := ih saves (come visit ⟨opened, none⟩).state.opened
            exact ⟨congrArg (_ ++ ·) issued, still, raised⟩

theorem forEach_come_result (visits : List Visit) (layers : OpenLayers)
    (running : Running layers) :
    (forEach come visits layers).result = .ok () ∨
      (forEach come visits layers).result = .error .raised := by
  by_cases kept : NoneReplaced visits
  · exact Or.inl (congrArg Ran.result (forEach_come visits layers running kept))
  · exact Or.inr (forEach_come_raises visits layers running kept)

theorem layeredUntilSaved_eq {V : Type} (saves : Nat) (visits : List Visit) (value : V)
    (layers : OpenLayers) (running : Running layers) :
    layeredUntilSaved saves ((forEach come visits).andThen fun _ => returns value) layers =
      forEach come (upToLast saves visits) layers := by
  obtain ⟨opened, saved⟩ := layers
  obtain rfl : saved = none := running
  obtain ⟨issued, still, raised⟩ := forEach_come_saving visits saves opened
  have stays := forEach_come_running (upToLast saves visits) ⟨opened, none⟩ rfl
  have ends := forEach_come_result (upToLast saves visits) ⟨opened, none⟩ rfl
  generalize forEach come (upToLast saves visits) ⟨opened, none⟩ = other at *
  obtain ⟨otherIssued, ⟨otherOpened, otherSaves⟩, otherResult⟩ := other
  obtain rfl : otherSaves = none := stays
  obtain rfl : _ = otherIssued := issued
  obtain rfl : _ = otherOpened := still
  rw [layeredUntilSaved]
  dsimp only at ends raised ⊢
  cases ended : (forEach come visits ⟨opened, some saves⟩).result with
  | ok last =>
      rw [andThen_ok ended]
      rw [ended] at raised
      rcases ends with through | stuck
      · rw [through, returns, List.append_nil]
      · exact absurd (raised.mpr stuck) (by simp)
  | error cause =>
      rw [andThen_error ended]
      rw [ended] at raised
      cases cause with
      | raised => rw [raised.mp rfl]
      | stopped =>
          rcases ends with through | stuck
          · rw [through]
          · exact absurd (raised.mpr stuck) (by simp)

/-- A layer is open after a pass that leaves it open, or that does not come by where it is
open before. -/
theorem foldl_visited_opened (layer : Path) (visits : List Visit) (layers : OpenLayers) :
    (visits.foldl OpenLayers.visited layers).opened layer = true ↔
      LeftOpen layer visits ∨ layers.opened layer = true ∧ .left layer ∉ visits := by
  induction visits generalizing layers with
  | nil => simp [not_leftOpen_nil]
  | cons visit rest ih =>
      rw [List.foldl_cons, ih, leftOpen_cons, or_assoc, List.mem_cons, not_or]
      refine or_congr_right ?_
      cases visit with
      | entered other parameters =>
          by_cases same : layer = other
          · simp [OpenLayers.visited, OpenLayers.mark, same]
          · simp [OpenLayers.visited, OpenLayers.mark, same, Ne.symm same]
      | left other =>
          by_cases same : layer = other
          · simp [OpenLayers.visited, OpenLayers.mark, same]
          · simp [OpenLayers.visited, OpenLayers.mark, same]
      | kept => simp [OpenLayers.visited]
      | replaced child => simp [OpenLayers.visited]
      | passed transfer => simp [OpenLayers.visited]

end Visits

end ScalarLM.Training
