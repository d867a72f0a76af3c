/-
# Tether.Shape.Drift — a changed schema freezes a shape

A shape records the fingerprint of the first change that gets past its table test
and its LSN gate, and refuses every other one: the refusal halts the log for good.
The fingerprint is recorded lazily and can be absent from a change, so what an
instance knows is a function of its history.  `reached` is that history, the
fingerprints that got as far as `checkFingerprint`, and `Tracks` says what the
instance has made of it: it holds the first one, and it is halted exactly when two
of them differ.

One call keeps `Tracks` (`tracks_call`), hence every run from `start` does.  A halted
instance refuses every call and stays as it is (`run_halted`).
-/
import Tether.Shape.Isolation

namespace Tether.Shape.Instance

open Tether.Lib Tether.Wal

set_option autoImplicit false

variable {C : Type}

/-! ## The fingerprints of a run -/

/-- What a call brings to `checkFingerprint` that is not empty. -/
def brings (inst : Instance C) : Call → List String
  | .loadSnapshot _ _ => []
  | .apply ch =>
      if inst.reaches ch && ch.relationFingerprint != "" then [ch.relationFingerprint] else []

def reached (inst : Instance C) : List Call → List String
  | [] => []
  | c :: calls => inst.brings c ++ (inst.call c).reached calls

/-- The fingerprints of the changes that appended an event. -/
def appended (inst : Instance C) : List Call → List String
  | [] => []
  | .loadSnapshot lsn rows :: calls => (inst.call (.loadSnapshot lsn rows)).appended calls
  | .apply ch :: calls =>
      if (inst.apply ch).1.log.events.length = inst.log.events.length then
        (inst.apply ch).1.appended calls
      else ch.relationFingerprint :: (inst.apply ch).1.appended calls

theorem reached_concat (inst : Instance C) (calls : List Call) (c : Call) :
    inst.reached (calls ++ [c]) = inst.reached calls ++ (inst.run calls).brings c := by
  induction calls generalizing inst with
  | nil => simp [reached, run]
  | cons first calls ih =>
      rw [List.cons_append, reached, ih, reached, List.append_assoc]
      rfl

theorem run_concat (inst : Instance C) (calls : List Call) (c : Call) :
    inst.run (calls ++ [c]) = (inst.run calls).call c := by
  simp [run, List.foldl_append]

/-! ## What an instance knows -/

/-- The fingerprints are all the same. -/
def Uniform (fps : List String) : Prop := ∀ fp ∈ fps, fp = fps.headD ""

instance (fps : List String) : Decidable (Uniform fps) :=
  inferInstanceAs (Decidable (∀ fp ∈ fps, fp = fps.headD ""))

structure Tracks (inst : Instance C) (fps : List String) : Prop where
  nonempty : ∀ fp ∈ fps, fp ≠ ""
  fingerprint : inst.fingerprint = fps.headD ""
  halted : inst.log.halted =
    if Uniform fps then none else some (.schemaDrift inst.defn.name)

theorem tracks_start (d : Definition C) (f : Filter) : (start d f).Tracks [] where
  nonempty := by simp
  fingerprint := rfl
  halted := rfl

theorem not_uniform_append {fps : List String} (differ : ¬ Uniform fps) (more : List String) :
    ¬ Uniform (fps ++ more) ∧ (fps ++ more).headD "" = fps.headD "" := by
  cases fps with
  | nil => exact absurd (fun fp absent => absurd absent List.not_mem_nil) differ
  | cons first fps =>
      refine ⟨fun uniform => differ fun fp member => ?_, rfl⟩
      exact uniform fp (List.mem_append_left _ member)

theorem uniform_concat {fps : List String} {fp : String} (uniform : Uniform fps)
    (same : fps = [] ∨ fps.headD "" = fp) :
    Uniform (fps ++ [fp]) ∧ (fps ++ [fp]).headD "" = fp := by
  cases fps with
  | nil =>
      refine ⟨fun fp' member => ?_, rfl⟩
      exact List.mem_singleton.1 member
  | cons first fps =>
      obtain rfl : first = fp := same.resolve_left (List.cons_ne_nil _ _)
      refine ⟨fun fp' member => ?_, rfl⟩
      rcases List.mem_append.1 member with old | here
      · exact uniform fp' old
      · exact List.mem_singleton.1 here

section Tracks

variable {inst : Instance C} {fps : List String}

theorem Tracks.uniform_of_live (tracks : inst.Tracks fps) (live : inst.log.halted = none) :
    Uniform fps := by
  by_contra differ
  have halted := tracks.halted
  rw [if_neg differ, live] at halted
  cases halted

/-- Nothing has been recorded exactly while nothing has been brought. -/
theorem Tracks.eq_nil_iff (tracks : inst.Tracks fps) : inst.fingerprint = "" ↔ fps = [] := by
  rw [tracks.fingerprint]
  cases fps with
  | nil => simp
  | cons first fps => simp [tracks.nonempty first List.mem_cons_self]

/-- `checkFingerprint` after a history: the second fingerprint to differ is refused,
any other is the one that is recorded from here on. -/
theorem Tracks.checkFingerprint (tracks : inst.Tracks fps) {fp : String} (some : fp ≠ "") :
    inst.checkFingerprint fp =
      if fps = [] ∨ fps.headD "" = fp then .ok { inst with fingerprint := fp }
      else .error (.schemaDrift inst.defn.name) := by
  unfold Instance.checkFingerprint
  rw [if_neg some]
  by_cases first : fps = []
  · rw [if_pos (tracks.eq_nil_iff.2 first), if_pos (Or.inl first)]
  · rw [if_neg fun empty => first (tracks.eq_nil_iff.1 empty)]
    by_cases same : fps.headD "" = fp
    · have recorded : inst.fingerprint = fp := tracks.fingerprint.trans same
      rw [if_neg (not_not.2 recorded), if_pos (Or.inr same), ← recorded]
    · rw [if_pos fun recorded => same (tracks.fingerprint.symm.trans recorded),
        if_neg (not_or.2 ⟨first, same⟩)]

theorem brings_apply {ch : Change} (reaches : inst.reaches ch = true) :
    inst.brings (.apply ch) =
      if ch.relationFingerprint = "" then [] else [ch.relationFingerprint] := by
  by_cases empty : ch.relationFingerprint = "" <;> simp [brings, reaches, empty]

/-- An accepted fingerprint, recorded. -/
theorem Tracks.accept (tracks : inst.Tracks fps) (live : inst.log.halted = none) {ch : Change}
    (reaches : inst.reaches ch = true) {fp : String}
    (accepted :
      inst.checkFingerprint ch.relationFingerprint = .ok { inst with fingerprint := fp }) :
    (∀ fp ∈ fps ++ inst.brings (.apply ch), fp ≠ "") ∧
      fp = (fps ++ inst.brings (.apply ch)).headD "" ∧
      Uniform (fps ++ inst.brings (.apply ch)) := by
  have uniform := tracks.uniform_of_live live
  rw [brings_apply reaches]
  by_cases empty : ch.relationFingerprint = ""
  · have unchanged : inst.fingerprint = fp := by
      rw [empty] at accepted
      exact congrArg Instance.fingerprint (Except.ok.inj accepted)
    rw [if_pos empty, List.append_nil, ← tracks.fingerprint]
    exact ⟨tracks.nonempty, unchanged.symm, uniform⟩
  · rw [tracks.checkFingerprint empty] at accepted
    split_ifs at accepted with same
    obtain rfl : ch.relationFingerprint = fp :=
      congrArg Instance.fingerprint (Except.ok.inj accepted)
    obtain ⟨uniform', head⟩ := uniform_concat uniform same
    rw [if_neg empty]
    refine ⟨fun fp member => ?_, head.symm, uniform'⟩
    rcases List.mem_append.1 member with old | here
    · exact tracks.nonempty fp old
    · exact List.mem_singleton.1 here ▸ empty

theorem brings_ne_empty {c : Call} : ∀ fp ∈ inst.brings c, fp ≠ "" := by
  cases c with
  | loadSnapshot lsn rows => exact fun fp absent => absurd absent List.not_mem_nil
  | apply ch =>
      simp only [brings]
      split_ifs with some
      · intro fp member
        rw [List.mem_singleton.1 member]
        simpa using (Bool.and_eq_true_iff.1 some).2
      · exact fun fp absent => absurd absent List.not_mem_nil

theorem tracks_apply (tracks : inst.Tracks fps) (ch : Change) :
    (inst.apply ch).1.Tracks (fps ++ inst.brings (.apply ch)) := by
  have nonempty : ∀ fp ∈ fps ++ inst.brings (.apply ch), fp ≠ "" := by
    intro fp member
    exact (List.mem_append.1 member).elim (tracks.nonempty fp) (brings_ne_empty fp)
  have stepped := inst.apply_step ch
  generalize inst.apply ch = result at stepped ⊢
  obtain ⟨inst', outcome⟩ := result
  cases stepped with
  | halted halted =>
      have differ : ¬ Uniform fps := by
        intro uniform
        have live := tracks.halted
        rw [if_pos uniform, halted] at live
        cases live
      obtain ⟨differ', head⟩ := not_uniform_append differ _
      refine ⟨nonempty, head ▸ tracks.fingerprint, ?_⟩
      rw [if_neg differ', tracks.halted, if_neg differ]
  | ignored live stopped =>
      have nothing : inst'.brings (.apply ch) = [] := by
        rcases stopped with foreign | gated
        · simp [brings, Instance.reaches, foreign]
        · simp [brings, Instance.reaches, gated]
      rw [nothing, List.append_nil]
      exact tracks
  | drifted live mine passes refused =>
      have uniform := tracks.uniform_of_live live
      have some : ch.relationFingerprint ≠ "" := by
        intro empty
        rw [empty] at refused
        cases refused
      rw [tracks.checkFingerprint some] at refused
      split_ifs at refused with same
      cases refused
      obtain ⟨known, differs⟩ := not_or.1 same
      rw [brings_apply (reaches_iff.2 ⟨mine, passes⟩), if_neg some]
      cases fps with
      | nil => exact absurd rfl known
      | cons first fps =>
          refine ⟨?_, tracks.fingerprint, ?_⟩
          · rw [brings_apply (reaches_iff.2 ⟨mine, passes⟩), if_neg some] at nonempty
            exact nonempty
          · have differ : ¬ Uniform (first :: fps ++ [ch.relationFingerprint]) := fun uniform' =>
              differs (uniform' ch.relationFingerprint (by simp)).symm
            rw [if_neg differ]
            simp [Log.halt, live]
  | failed live mine passes accepted _ | silent live mine passes accepted _
  | moved live mine passes accepted _ =>
      obtain ⟨-, recorded, uniform⟩ :=
        tracks.accept live (reaches_iff.2 ⟨mine, passes⟩) accepted
      exact ⟨nonempty, recorded, by rw [if_pos uniform]; exact live⟩

/-- A snapshot touches neither the fingerprint nor the halt. -/
theorem loadRows_frame (inst : Instance C) (rows : List (Option Row)) :
    (inst.loadRows rows).1.fingerprint = inst.fingerprint ∧
      (inst.loadRows rows).1.log.halted = inst.log.halted := by
  induction rows generalizing inst with
  | nil => exact ⟨rfl, rfl⟩
  | cons row rows ih =>
      cases row with
      | none => exact ih inst
      | some row =>
          simp only [loadRows]
          split
          · split
            · exact ⟨rfl, rfl⟩
            · rename_i key _
              cases live : inst.log.halted with
              | none =>
                  rw [record_live live, ← live]
                  exact ih _
              | some cause =>
                  simp only [record, writeCache, appendLog, Log.append, live]
                  exact ⟨trivial, trivial⟩
          · exact ih inst

theorem tracks_loadSnapshot (tracks : inst.Tracks fps) (lsn : LSN) (rows : List (Option Row)) :
    (inst.loadSnapshot lsn rows).1.Tracks fps := by
  have defn := (extends_call inst (.loadSnapshot lsn rows)).defn
  have frame : (inst.loadSnapshot lsn rows).1.fingerprint = inst.fingerprint ∧
      (inst.loadSnapshot lsn rows).1.log.halted = inst.log.halted := by
    unfold loadSnapshot
    cases live : inst.log.halted with
    | some cause => exact ⟨rfl, live⟩
    | none =>
        obtain ⟨fingerprint, halted⟩ :=
          loadRows_frame { inst with snapshotLSN := lsn, hasSnapshot := true } rows
        exact ⟨fingerprint, halted.trans live⟩
  refine ⟨tracks.nonempty, frame.1.trans tracks.fingerprint, ?_⟩
  rw [frame.2, tracks.halted]
  have name : (inst.loadSnapshot lsn rows).1.defn.name = inst.defn.name :=
    congrArg Definition.name defn
  rw [name]

theorem tracks_call (tracks : inst.Tracks fps) (c : Call) :
    (inst.call c).Tracks (fps ++ inst.brings c) := by
  cases c with
  | apply ch => exact tracks_apply tracks ch
  | loadSnapshot lsn rows =>
      rw [brings, List.append_nil]
      exact tracks_loadSnapshot tracks lsn rows

end Tracks

/-- **What an instance has recorded is a function of what reached it.** -/
theorem tracks_run (d : Definition C) (f : Filter) (calls : List Call) :
    ((start d f).run calls).Tracks ((start d f).reached calls) := by
  induction calls using List.reverseRecOn with
  | nil => exact tracks_start d f
  | append_singleton calls c ih =>
      rw [run_concat, reached_concat]
      exact tracks_call ih c

/-! ## Halted for good -/

theorem call_halted {inst : Instance C} {cause : ShapeError}
    (halted : inst.log.halted = some cause) (c : Call) : inst.call c = inst := by
  cases c with
  | apply ch => simp [call, Instance.apply, halted]
  | loadSnapshot lsn rows => simp [call, loadSnapshot, halted]

theorem run_halted {inst : Instance C} {cause : ShapeError}
    (halted : inst.log.halted = some cause) (calls : List Call) : inst.run calls = inst := by
  induction calls with
  | nil => rfl
  | cons c calls ih => rw [run, List.foldl_cons, call_halted halted c]; exact ih

/-- **An error changes neither the rows nor the events.** -/
theorem apply_error {inst : Instance C} {ch : Change} {err : ShapeError}
    (failed : (inst.apply ch).2 = .error err) :
    (inst.apply ch).1.cache = inst.cache ∧ (inst.apply ch).1.log.events = inst.log.events := by
  have stepped := inst.apply_step ch
  generalize inst.apply ch = result at stepped failed ⊢
  obtain ⟨inst', outcome⟩ := result
  cases stepped with
  | halted _ | drifted _ _ _ _ | failed _ _ _ _ _ => exact ⟨rfl, rfl⟩
  | ignored _ _ | silent _ _ _ _ _ | moved _ _ _ _ _ => cases failed

/-! ## What the whole history shows -/

/-- A change that appends carries no fingerprint or the one that is recorded. -/
theorem Tracks.of_append {inst : Instance C} {fps : List String} (tracks : inst.Tracks fps)
    {ch : Change} (grew : (inst.apply ch).1.log.events.length ≠ inst.log.events.length)
    (some : ch.relationFingerprint ≠ "") :
    (fps ++ inst.brings (.apply ch)).head? = .some ch.relationFingerprint := by
  have stepped := inst.apply_step ch
  generalize inst.apply ch = result at stepped grew
  obtain ⟨inst', outcome⟩ := result
  cases stepped with
  | moved live mine passes accepted _ =>
      rw [brings_apply (reaches_iff.2 ⟨mine, passes⟩), if_neg some]
      rw [tracks.checkFingerprint some] at accepted
      split_ifs at accepted with same
      cases fps with
      | nil => rfl
      | cons first fps => exact congrArg Option.some (same.resolve_left (List.cons_ne_nil _ _))
  | _ => exact absurd rfl grew

/-- The recorded fingerprint of a run is the one of every change that appended. -/
theorem Tracks.appended {inst : Instance C} {fps : List String} (tracks : inst.Tracks fps)
    (calls : List Call) :
    ∀ fp ∈ inst.appended calls, fp ≠ "" → (fps ++ inst.reached calls).head? = some fp := by
  induction calls generalizing inst fps with
  | nil => exact fun fp absent => absurd absent List.not_mem_nil
  | cons c calls ih =>
      have later := ih (tracks_call tracks c)
      rw [List.append_assoc] at later
      cases c with
      | loadSnapshot lsn rows => exact later
      | apply ch =>
          intro fp member some
          rw [Instance.appended] at member
          split_ifs at member with quiet
          · exact later fp member some
          · rcases List.mem_cons.1 member with rfl | old
            · have here := tracks.of_append quiet some
              rw [reached, ← List.append_assoc, List.head?_append, here]
              rfl
            · exact later fp old some

/-- The first fingerprint to differ halts the log and changes nothing else. -/
theorem Tracks.apply_drift {inst : Instance C} {fps : List String} (tracks : inst.Tracks fps)
    {ch : Change} {fp : String} (known : fps ≠ []) (same : ∀ fp' ∈ fps, fp' = fp)
    (reaches : inst.reaches ch = true) (some : ch.relationFingerprint ≠ "")
    (differs : ch.relationFingerprint ≠ fp) :
    inst.log.halted = none ∧
      inst.apply ch =
        ({ inst with log := inst.log.halt (.schemaDrift inst.defn.name) },
          .error (.schemaDrift inst.defn.name)) := by
  have head : fps.headD "" = fp := by
    cases fps with
    | nil => exact absurd rfl known
    | cons first fps => exact same first List.mem_cons_self
  have uniform : Uniform fps := fun fp' member => (same fp' member).trans head.symm
  have live : inst.log.halted = none := by rw [tracks.halted, if_pos uniform]
  have refused : inst.checkFingerprint ch.relationFingerprint =
      .error (.schemaDrift inst.defn.name) := by
    have second : ¬ (fps = [] ∨ fps.headD "" = ch.relationFingerprint) :=
      not_or.2 ⟨known, fun again => differs (again.symm.trans head)⟩
    rw [tracks.checkFingerprint some, if_neg second]
  obtain ⟨mine, passes⟩ := reaches_iff.1 reaches
  exact ⟨live, by simp [Instance.apply, live, mine, passes, refused]⟩

/-- **Schema drift freezes a shape, and errors are atomic.** -/
theorem drift_freezes (d : Definition C) (f : Filter) :
    (∀ calls, ∀ fp ∈ (start d f).appended calls, ∀ fp' ∈ (start d f).appended calls,
        fp ≠ "" → fp' ≠ "" → fp = fp') ∧
      (∀ before ch fp, (start d f).reached before ≠ [] →
        (∀ fp' ∈ (start d f).reached before, fp' = fp) →
        ((start d f).run before).reaches ch = true → ch.relationFingerprint ≠ "" →
        ch.relationFingerprint ≠ fp →
        (((start d f).run before).apply ch).2 = .error (.schemaDrift d.name) ∧
          ∀ after, ∃ frozen : Instance C,
            (start d f).run (before ++ .apply ch :: after) = frozen ∧
            frozen.cache = ((start d f).run before).cache ∧
            frozen.log.events = ((start d f).run before).log.events ∧
            frozen.log.lastOffset = ((start d f).run before).log.lastOffset ∧
            frozen.fingerprint = ((start d f).run before).fingerprint ∧
            (∀ ch', (frozen.apply ch').2 = .error (.halted (.schemaDrift d.name))) ∧
            (∀ lsn rows, (frozen.loadSnapshot lsn rows).2 =
              .error (.halted (.schemaDrift d.name)))) ∧
      (∀ (inst : Instance C) ch err, (inst.apply ch).2 = .error err →
        (inst.apply ch).1.cache = inst.cache ∧
          (inst.apply ch).1.log.events = inst.log.events) := by
  refine ⟨?_, ?_, fun inst ch err failed => apply_error failed⟩
  · intro calls fp member fp' member' some some'
    have recorded := (tracks_start d f).appended calls
    exact Option.some.inj ((recorded fp member some).symm.trans (recorded fp' member' some'))
  · intro before ch fp known same reaches some differs
    obtain ⟨live, applied⟩ := (tracks_run d f before).apply_drift known same reaches some differs
    have name : ((start d f).run before).defn.name = d.name :=
      (congrArg Definition.name (extends_run (start d f) before).defn :)
    rw [name] at applied
    refine ⟨by rw [applied], fun after => ?_⟩
    have halted : (((start d f).run before).apply ch).1.log.halted =
        Option.some (.schemaDrift d.name) := by
      simp [applied, Log.halt, live]
    have run : (start d f).run (before ++ .apply ch :: after) =
        (((start d f).run before).apply ch).1 := by
      rw [← run_halted halted after]
      simp [Instance.run, List.foldl_append, call]
    refine ⟨_, run, by rw [applied], by rw [applied]; rfl, by rw [applied]; rfl, by rw [applied],
      ?_, ?_⟩
    · intro ch'
      rw [Instance.apply, halted]
    · intro lsn rows
      rw [loadSnapshot, halted]

namespace Notes

def notes : Definition Unit where
  name := "notes"
  schema := ""
  table := ""
  primaryKey := []
  bind := none

def anyNote : Filter := ⟨[⟨"id", .isNotNull, .null⟩]⟩

def added (id : String) (fp : String) : Change where
  schema := "public"
  table := "notes"
  op := .insert
  relationFingerprint := fp
  new := some (KeyMap.ofList [("id", .string id)])

/-- A column is added after the first note: the second one never arrives. -/
theorem drift_freezes_notes :
    (((start notes anyNote).run [.apply (added "1" "id")]).apply (added "2" "id|text")).2 =
        .error (.schemaDrift "notes") ∧
      ∀ after, ((start notes anyNote).run
        (.apply (added "1" "id") :: .apply (added "2" "id|text") :: after)).log.lastOffset = 1 := by
  obtain ⟨drifted, frozen⟩ := (drift_freezes notes anyNote).2.1 [.apply (added "1" "id")]
    (added "2" "id|text") "id" (by decide +kernel) (by decide +kernel) (by decide +kernel)
    (by decide) (by decide)
  refine ⟨drifted, fun after => ?_⟩
  obtain ⟨_, rfl, -, -, last, -⟩ := frozen after
  have one : ((start notes anyNote).run [.apply (added "1" "id")]).log.lastOffset = 1 := by
    decide +kernel
  exact last.trans one

end Notes

end Tether.Shape.Instance
