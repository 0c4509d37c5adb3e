import Mathlib.Data.Multiset.AddSub
import Mathlib.Data.List.Nodup
import Mathlib.Logic.Function.Basic
import Mathlib.Tactic.Common

/-! Memory in pages. A reader goes through its list of pages, and pages are copied to
others, added and written to. -/

namespace ScalarLM.Paging

section Memory

variable {ι ν : Type} [DecidableEq ι]

def copy (memory : ι → Nat → ν) (move : ι × ι) : ι → Nat → ν :=
  Function.update memory move.2 (memory move.1)

def copyAll (memory : ι → Nat → ν) (moves : List (ι × ι)) : ι → Nat → ν :=
  moves.foldl copy memory

def write (memory : ι → Nat → ν) (page : ι) (offset : Nat) (value : ν) : ι → Nat → ν :=
  Function.update memory page (Function.update (memory page) offset value)

def entry (size : Nat) (memory : ι → Nat → ν) (pages : List ι) (position : Nat) : Option ν :=
  pages[position / size]?.map fun page => memory page (position % size)

def Reads (size : Nat) (memory : ι → Nat → ν) (pages : List ι) (stored : List ν) : Prop :=
  ∀ position value, stored[position]? = some value →
    entry size memory pages position = some value

theorem copyAll_append (memory : ι → Nat → ν) (front back : List (ι × ι)) :
    copyAll memory (front ++ back) = copyAll (copyAll memory front) back :=
  List.foldl_append

theorem copy_of_ne (memory : ι → Nat → ν) (move : ι × ι) {page : ι} (other : page ≠ move.2) :
    copy memory move page = memory page :=
  Function.update_of_ne other _ _

theorem copy_target (memory : ι → Nat → ν) (source target : ι) :
    copy memory (source, target) target = memory source :=
  Function.update_self _ _ _

theorem copyAll_of_not_mem (memory : ι → Nat → ν) (moves : List (ι × ι)) {page : ι}
    (spared : page ∉ moves.map Prod.snd) : copyAll memory moves page = memory page := by
  induction moves generalizing memory with
  | nil => rfl
  | cons move rest ih =>
      rw [List.map_cons, List.mem_cons, not_or] at spared
      rw [copyAll, List.foldl_cons]
      exact (ih _ spared.2).trans (copy_of_ne memory move spared.1)

/-- When no page is copied to twice, and none is copied from after it was copied to,
the moves can be made in any order: each target gets what its source held before. -/
theorem copyAll_of_mem (memory : ι → Nat → ν) (moves : List (ι × ι))
    (once : (moves.map Prod.snd).Nodup)
    (apart : ∀ move ∈ moves, move.1 ∉ moves.map Prod.snd) {move : ι × ι} (made : move ∈ moves) :
    copyAll memory moves move.2 = memory move.1 := by
  induction moves generalizing memory with
  | nil => exact absurd made List.not_mem_nil
  | cons first rest ih =>
      rw [List.map_cons, List.nodup_cons] at once
      rw [copyAll, List.foldl_cons]
      rcases List.mem_cons.mp made with rfl | later
      · exact (copyAll_of_not_mem _ rest once.1).trans (Function.update_self _ _ _)
      · have untouched := apart move made
        rw [List.map_cons, List.mem_cons, not_or] at untouched
        have step := ih (copy memory first) once.2
          (fun other member => by
            have spared := apart other (List.mem_cons_of_mem _ member)
            rw [List.map_cons, List.mem_cons, not_or] at spared
            exact spared.2)
          later
        exact step.trans (copy_of_ne memory first untouched.1)

theorem copyAll_perm (memory : ι → Nat → ν) {left right : List (ι × ι)} (same : left.Perm right)
    (once : (left.map Prod.snd).Nodup)
    (apart : ∀ move ∈ left, move.1 ∉ left.map Prod.snd) :
    copyAll memory left = copyAll memory right := by
  have targets := same.map Prod.snd
  funext page
  by_cases target : page ∈ left.map Prod.snd
  · obtain ⟨move, made, rfl⟩ := List.mem_map.mp target
    rw [copyAll_of_mem memory left once apart made]
    refine (copyAll_of_mem memory right (targets.nodup_iff.mp once) ?_ (same.mem_iff.mp made)).symm
    intro other member
    rw [← targets.mem_iff]
    exact apart other (same.mem_iff.mpr member)
  · rw [copyAll_of_not_mem memory left target,
      copyAll_of_not_mem memory right (fun member => target (targets.mem_iff.mpr member))]

theorem copy_comm (memory : ι → Nat → ν) {first second : ι × ι} (kept : first.1 ≠ second.2)
    (unread : first.2 ≠ second.1) (apart : first.2 ≠ second.2) :
    copy (copy memory first) second = copy (copy memory second) first := by
  have source : copy memory first second.1 = memory second.1 := copy_of_ne _ _ unread.symm
  have source' : copy memory second first.1 = memory first.1 := copy_of_ne _ _ kept
  rw [copy, source]
  conv_rhs => rw [copy, source']
  exact Function.update_comm apart _ _ _

/-- Moves can be made before others that they have no page in common with, except that both
may copy from the same one. -/
theorem copyAll_comm (memory : ι → Nat → ν) (front back : List (ι × ι))
    (apart : ∀ first ∈ front, ∀ second ∈ back,
      first.1 ≠ second.2 ∧ first.2 ≠ second.1 ∧ first.2 ≠ second.2) :
    copyAll memory (front ++ back) = copyAll memory (back ++ front) := by
  induction back generalizing memory front with
  | nil => rw [List.append_nil, List.nil_append]
  | cons second rest ih =>
      have one : ∀ memory : ι → Nat → ν,
          copyAll memory (front ++ [second]) = copyAll memory (second :: front) := by
        clear ih
        induction front with
        | nil => exact fun _ => rfl
        | cons first later ih' =>
            intro memory
            obtain ⟨kept, unread, different⟩ := apart first List.mem_cons_self second
              List.mem_cons_self
            have step := ih' (fun other member => apart other (List.mem_cons_of_mem _ member))
              (copy memory first)
            refine step.trans ?_
            rw [copyAll, copyAll, List.foldl_cons, List.foldl_cons, List.foldl_cons,
              copy_comm memory kept unread different]
      rw [List.append_cons, copyAll_append, one, ← copyAll_append, List.cons_append,
        List.cons_append, copyAll, List.foldl_cons, copyAll, List.foldl_cons]
      exact ih (copy memory second) front fun first member other member' =>
        apart first member other (List.mem_cons_of_mem _ member')

end Memory

section Readers

variable {ι ν : Type} {size : Nat} {memory : ι → Nat → ν} {pages : List ι} {stored : List ν}

theorem Reads.congr (reads : Reads size memory pages stored) {memory' : ι → Nat → ν}
    (same : ∀ page ∈ pages, memory' page = memory page) :
    Reads size memory' pages stored := by
  intro position value found
  have read := reads position value found
  rw [entry, Option.map_eq_some_iff] at read ⊢
  obtain ⟨page, listed, held⟩ := read
  exact ⟨page, listed, by rw [same page (List.mem_of_getElem? listed), held]⟩

theorem Reads.grow (reads : Reads size memory pages stored) (more : List ι) :
    Reads size memory (pages ++ more) stored := by
  intro position value found
  have read := reads position value found
  rw [entry, Option.map_eq_some_iff] at read ⊢
  obtain ⟨page, listed, held⟩ := read
  have inside := (List.getElem?_eq_some_iff.mp listed).1
  exact ⟨page, by rw [List.getElem?_append_left inside, listed], held⟩

variable [DecidableEq ι]

theorem Reads.move (reads : Reads size memory pages stored) {index : Nat} {source target : ι}
    (moved : pages[index]? = some source) (fresh : target ∉ pages) :
    Reads size (copy memory (source, target)) (pages.set index target) stored := by
  intro position value found
  have read := reads position value found
  rw [entry, Option.map_eq_some_iff] at read ⊢
  obtain ⟨page, listed, held⟩ := read
  by_cases here : position / size = index
  · have inside := (List.getElem?_eq_some_iff.mp listed).1
    have same : page = source := Option.some.inj (listed.symm.trans (here ▸ moved))
    refine ⟨target, ?_, ?_⟩
    · rw [← here, List.getElem?_set_self inside]
    · rw [copy_target, ← same, held]
  · refine ⟨page, ?_, ?_⟩
    · rw [List.getElem?_set_ne (Ne.symm here), listed]
    · have kept : page ≠ target := ne_of_mem_of_not_mem (List.mem_of_getElem? listed) fresh
      rw [copy_of_ne memory (source, target) kept, held]

theorem Reads.write (reads : Reads size memory pages stored) (once : pages.Nodup)
    {page : ι} (listed : pages[stored.length / size]? = some page) (value : ν) :
    Reads size (Paging.write memory page (stored.length % size) value) pages
      (stored ++ [value]) := by
  intro position content found
  rcases Nat.lt_trichotomy position stored.length with before | here | behind
  · rw [List.getElem?_append_left before] at found
    have read := reads position content found
    rw [entry, Option.map_eq_some_iff] at read ⊢
    obtain ⟨other, place, held⟩ := read
    refine ⟨other, place, ?_⟩
    by_cases same : other = page
    · rw [same] at place
      have indices : position / size = stored.length / size :=
        (List.getElem?_inj (List.getElem?_eq_some_iff.mp place).1 once).mp
          (place.trans listed.symm)
      have offsets : position % size ≠ stored.length % size := by
        intro equal
        have left := Nat.div_add_mod position size
        rw [indices, equal, Nat.div_add_mod] at left
        omega
      rw [Paging.write, same, Function.update_self, Function.update_of_ne offsets, ← same, held]
    · rw [Paging.write, Function.update_of_ne same, held]
  · rw [here, List.getElem?_append_right (Nat.le_refl _), Nat.sub_self] at found
    have same : value = content := by simpa using found
    rw [here, entry, listed, Option.map_some, Paging.write, Function.update_self,
      Function.update_self, same]
  · rw [List.getElem?_append_right (by omega), List.getElem?_eq_none (by simp; omega)] at found
    cases found

theorem Reads.replace {sources targets : List ι} (reads : Reads size memory sources stored)
    (lengths : sources.length = targets.length) (once : targets.Nodup)
    (apart : ∀ page ∈ targets, page ∉ sources) :
    Reads size (copyAll memory (sources.zip targets)) targets stored := by
  have seconds : (sources.zip targets).map Prod.snd = targets :=
    List.map_snd_zip (Nat.le_of_eq lengths.symm)
  intro position value found
  have read := reads position value found
  rw [entry, Option.map_eq_some_iff] at read ⊢
  obtain ⟨page, listed, held⟩ := read
  obtain ⟨inside, source⟩ := List.getElem?_eq_some_iff.mp listed
  have within : position / size < targets.length := lengths ▸ inside
  refine ⟨targets[position / size], List.getElem?_eq_getElem within, ?_⟩
  have made : (page, targets[position / size]) ∈ sources.zip targets := by
    have zipped : (sources.zip targets)[position / size]? =
        some (page, targets[position / size]) :=
      List.getElem?_zip_eq_some.mpr ⟨listed, List.getElem?_eq_getElem within⟩
    exact List.mem_of_getElem? zipped
  have moved := copyAll_of_mem memory (sources.zip targets) (by rw [seconds]; exact once)
    (by
      intro move member target
      rw [seconds] at target
      exact apart _ target (List.of_mem_zip member).1)
    made
  rw [moved, held]

end Readers

section Edits

variable {ι ν : Type}

/-- A reader's pages are edited while `others` are in use elsewhere: pages are added, and
shared pages are exchanged for ones that are in use nowhere. -/
inductive Edited (others : Multiset ι) (pages : List ι) : List (ι × ι) → List ι → Prop where
  | refl : Edited others pages [] pages
  | grow {moves : List (ι × ι)} {edited : List ι} (page : ι) :
      Edited others pages moves edited → page ∉ others → page ∉ edited →
      Edited others pages moves (edited ++ [page])
  | move {moves : List (ι × ι)} {edited : List ι} (index : Nat) (source target : ι) :
      Edited others pages moves edited → edited[index]? = some source → source ∈ others →
      target ∉ others → target ∉ edited →
      Edited others pages (moves ++ [(source, target)]) (edited.set index target)

namespace Edited

variable {others : Multiset ι} {pages edited final : List ι} {moves more : List (ι × ι)}

theorem trans (first : Edited others pages moves edited)
    (second : Edited others edited more final) :
    Edited others pages (moves ++ more) final := by
  induction second with
  | refl => rwa [List.append_nil]
  | grow page _ strange fresh ih => exact ih.grow page strange fresh
  | move index source target _ listed shared strange fresh ih =>
      rw [← List.append_assoc]
      exact ih.move index source target listed shared strange fresh

theorem length_le (edits : Edited others pages moves edited) : pages.length ≤ edited.length := by
  induction edits with
  | refl => exact Nat.le_refl _
  | grow page _ _ _ ih => rw [List.length_append]; omega
  | move index source target _ _ _ _ _ ih => rwa [List.length_set]

theorem nodup (edits : Edited others pages moves edited) (once : pages.Nodup) :
    edited.Nodup := by
  induction edits with
  | refl => exact once
  | grow page _ _ fresh ih =>
      exact List.nodup_append.mpr ⟨ih, List.nodup_singleton page,
        fun left member right single => by
          rw [List.mem_singleton.mp single]
          exact ne_of_mem_of_not_mem member fresh⟩
  | move index source target _ _ _ _ fresh ih => exact ih.set fresh

theorem kept (edits : Edited others pages moves edited) {index : Nat} {page : ι}
    (listed : edited[index]? = some page) (used : page ∈ others) :
    pages[index]? = some page := by
  induction edits with
  | refl => exact listed
  | @grow _ edited' added _ strange _ ih =>
      rw [List.getElem?_append] at listed
      split at listed
      · exact ih listed
      · have same : page = added := List.mem_singleton.mp (List.mem_of_getElem? listed)
        exact absurd used (same ▸ strange)
  | move place source target _ _ _ strange _ ih =>
      rw [List.getElem?_set] at listed
      split at listed
      · split at listed
        · exact absurd used (Option.some.inj listed ▸ strange)
        · cases listed
      · exact ih listed

theorem targets_strange (edits : Edited others pages moves edited) {page : ι}
    (target : page ∈ moves.map Prod.snd) : page ∉ others := by
  induction edits with
  | refl => exact absurd target List.not_mem_nil
  | grow _ _ _ _ ih => exact ih target
  | move index source added _ _ _ strange _ ih =>
      rw [List.map_append, List.mem_append] at target
      rcases target with earlier | last
      · exact ih earlier
      · rwa [List.mem_singleton.mp last]

theorem sources_shared (edits : Edited others pages moves edited) {move : ι × ι}
    (made : move ∈ moves) : move.1 ∈ others := by
  induction edits with
  | refl => exact absurd made List.not_mem_nil
  | grow _ _ _ _ ih => exact ih made
  | move index source added _ _ shared _ _ ih =>
      rcases List.mem_append.mp made with earlier | last
      · exact ih earlier
      · rwa [List.mem_singleton.mp last]

theorem sources_listed (edits : Edited others pages moves edited) {move : ι × ι}
    (made : move ∈ moves) : move.1 ∈ pages := by
  induction edits with
  | refl => exact absurd made List.not_mem_nil
  | grow _ _ _ _ ih => exact ih made
  | move index source added before listed shared _ _ ih =>
      rcases List.mem_append.mp made with earlier | last
      · exact ih earlier
      · rw [List.mem_singleton.mp last]
        exact List.mem_of_getElem? (before.kept listed shared)

theorem own_kept (edits : Edited others pages moves edited) {page : ι} (own : page ∉ others)
    (listed : page ∈ pages) : page ∈ edited := by
  induction edits with
  | refl => exact listed
  | grow _ _ _ _ ih => exact List.mem_append_left _ ih
  | @move _ edited' index source target _ place shared _ _ ih =>
      obtain ⟨at', found⟩ := List.getElem?_of_mem ih
      have apart : index ≠ at' := by
        intro same
        rw [← same, place] at found
        exact own (Option.some.inj found ▸ shared)
      exact List.mem_of_getElem? ((List.getElem?_set_ne apart).trans found)

theorem targets_listed (edits : Edited others pages moves edited) {page : ι}
    (target : page ∈ moves.map Prod.snd) : page ∈ edited := by
  induction edits with
  | refl => exact absurd target List.not_mem_nil
  | grow _ _ _ _ ih => exact List.mem_append_left _ (ih target)
  | @move moves' edited' index source added before place shared strange fresh ih =>
      rw [List.map_append, List.mem_append] at target
      rcases target with earlier | last
      · have own := before.targets_strange earlier
        have step : Edited others edited' [(source, added)] (edited'.set index added) :=
          Edited.refl.move index source added place shared strange fresh
        exact step.own_kept own (ih earlier)
      · rw [List.mem_singleton.mp last]
        have inside := (List.getElem?_eq_some_iff.mp place).1
        exact List.mem_of_getElem? (List.getElem?_set_self inside)

theorem targets_fresh (edits : Edited others pages moves edited) {page : ι}
    (target : page ∈ moves.map Prod.snd) : page ∉ pages := by
  induction edits with
  | refl => exact absurd target List.not_mem_nil
  | grow _ _ _ _ ih => exact ih target
  | @move _ edited' index source added before _ _ strange fresh ih =>
      rw [List.map_append, List.mem_append] at target
      rcases target with earlier | last
      · exact ih earlier
      · rw [List.mem_singleton.mp last]
        exact fun listed => fresh (before.own_kept strange listed)

theorem targets_once (edits : Edited others pages moves edited) :
    (moves.map Prod.snd).Nodup := by
  induction edits with
  | refl => exact List.nodup_nil
  | grow _ _ _ _ ih => exact ih
  | @move _ edited' index source added before _ _ _ fresh ih =>
      rw [List.map_append]
      exact List.nodup_append.mpr ⟨ih, List.nodup_singleton _, fun left member right single => by
        rw [List.mem_singleton.mp single]
        exact ne_of_mem_of_not_mem (before.targets_listed member) fresh⟩

variable [DecidableEq ι]

theorem reads {size : Nat} {memory : ι → Nat → ν} {stored : List ν}
    (edits : Edited others pages moves edited) (first : Reads size memory pages stored) :
    Reads size (copyAll memory moves) edited stored := by
  induction edits with
  | refl => exact first
  | grow page _ _ _ ih => exact ih.grow [page]
  | move index source target _ listed _ _ fresh ih =>
      rw [copyAll_append]
      exact ih.move listed fresh

end Edited

end Edits

end ScalarLM.Paging
