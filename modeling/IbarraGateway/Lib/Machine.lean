import Mathlib.Data.List.Basic
import Mathlib.Data.List.Induction

/-!
# Machines with input and output

A machine takes a state and an input (an event, with the answers of the environment in it) to the next state and
the outputs of the step; `none` means that the input is not enabled. A run feeds a list of inputs and concatenates the
outputs, so a property of a whole execution is a property of the *history* (all outputs so far) and of the state.

* `run_induction` : what every step preserves of history and state, every run preserves.
* `run_snoc_induction` : the same, with the inputs so far.
* `run_invariant` : the same for the state alone.
* `run_compose` : a relation between states, with outputs, that holds of every step and composes holds of every run.

The rules carry a guard `ok` on the steps taken (`Along`), for results about runs whose steps meet a condition;
`AlongHistory` is a guard that looks at the history as well. `Everywhere` says of a list what holds at each of its places.
-/

namespace IbarraGateway

/-- At each place of a list, of what stands in front of it and what stands there. -/
def Everywhere {α : Type} (P : List α → α → Prop) (l : List α) : Prop := ∀ before x after, l = before ++ x :: after → P before x

namespace Everywhere
variable {α : Type} {P : List α → α → Prop} {l l' : List α}

theorem nil : Everywhere P [] := by
  intro before x after heq
  simp at heq

theorem append_iff : Everywhere P (l ++ l') ↔ Everywhere P l ∧ Everywhere (fun before x => P (l ++ before) x) l' := by
  constructor
  · intro h
    refine ⟨fun before x after heq => ?_, fun before x after heq => ?_⟩
    · exact h before x (after ++ l') (by rw [heq, List.append_assoc, List.cons_append])
    · exact h (l ++ before) x after (by rw [heq, List.append_assoc])
  · rintro ⟨hl, hl'⟩ before x after heq
    rcases List.append_eq_append_iff.mp heq with ⟨y, rfl, hy⟩ | ⟨y, rfl, hy⟩
    · exact hl' y x after hy
    · rcases y with _ | ⟨x', y⟩
      · have hlast := hl' [] x after hy.symm
        rwa [List.append_nil, List.append_nil] at hlast
      · cases hy
        exact hl before x y rfl

theorem cons_iff {x : α} : Everywhere P (x :: l) ↔ P [] x ∧ Everywhere (fun before y => P (x :: before) y) l := by
  constructor
  · intro h
    refine ⟨h [] x l rfl, fun before y after heq => ?_⟩
    exact h (x :: before) y after (by rw [heq, List.cons_append])
  · rintro ⟨hx, hl⟩ before y after heq
    rcases before with _ | ⟨x', before⟩
    · cases heq
      exact hx
    · cases heq
      exact hl before y after rfl

theorem singleton_iff {x : α} : Everywhere P [x] ↔ P [] x := by
  rw [cons_iff]
  exact and_iff_left nil

theorem snoc_iff {x : α} : Everywhere P (l ++ [x]) ↔ Everywhere P l ∧ P l x := by
  rw [append_iff, singleton_iff, List.append_nil]

end Everywhere

/-- A deterministic machine: `none` when the input is not enabled. -/
structure Machine (σ α ε : Type) where
  step : σ → α → Option (σ × List ε)

namespace Machine
variable {σ α ε : Type} (M : Machine σ α ε)

/-- The state after all the inputs, with the outputs of every step in order. -/
def run : σ → List α → Option (σ × List ε)
  | s, [] => some (s, [])
  | s, a :: as =>
    match M.step s a with
    | none => none
    | some (t, out) =>
      match run t as with
      | none => none
      | some (u, outs) => some (u, out ++ outs)

/-- Every step taken along the inputs meets `ok`. -/
def Along (ok : σ → α → Prop) : σ → List α → Prop
  | _, [] => True
  | s, a :: as => ok s a ∧ ∀ t out, M.step s a = some (t, out) → Along ok t as

/-- Every step taken along the inputs meets `ok`, which sees the outputs so far. -/
def AlongHistory (ok : List ε → σ → α → Prop) : List ε → σ → List α → Prop
  | _, _, [] => True
  | h, s, a :: as => ok h s a ∧ ∀ t out, M.step s a = some (t, out) → AlongHistory ok (h ++ out) t as

@[simp] theorem run_nil (s : σ) : M.run s [] = some (s, []) := rfl

theorem run_cons_iff {s u : σ} {a : α} {as : List α} {h : List ε} :
    M.run s (a :: as) = some (u, h) ↔
      ∃ t out outs, M.step s a = some (t, out) ∧ M.run t as = some (u, outs) ∧ h = out ++ outs := by
  constructor
  · intro hr
    rw [run] at hr
    split at hr
    · cases hr
    · rename_i t out hstep
      split at hr
      · cases hr
      · rename_i v outs hrun
        cases hr
        exact ⟨t, out, outs, hstep, hrun, rfl⟩
  · rintro ⟨t, out, outs, hstep, hrun, rfl⟩
    simp only [run, hstep, hrun]

theorem run_cons_of {s t u : σ} {a : α} {as : List α} {out outs : List ε} (hstep : M.step s a = some (t, out))
    (hrun : M.run t as = some (u, outs)) : M.run s (a :: as) = some (u, out ++ outs) :=
  M.run_cons_iff.mpr ⟨t, out, outs, hstep, hrun, rfl⟩

theorem run_append (s : σ) (as bs : List α) :
    M.run s (as ++ bs) = (M.run s as).bind fun r => (M.run r.1 bs).map fun r' => (r'.1, r.2 ++ r'.2) := by
  induction as generalizing s with
  | nil => simp
  | cons a as ih =>
    rw [List.cons_append, run, run]
    cases M.step s a with
    | none => rfl
    | some r =>
      simp only [ih r.1]
      cases M.run r.1 as with
      | none => rfl
      | some r' =>
        simp only [Option.bind_some]
        cases M.run r'.1 bs with
        | none => rfl
        | some r'' => simp only [Option.map_some, List.append_assoc]

theorem run_append_iff {s u : σ} {as bs : List α} {h : List ε} :
    M.run s (as ++ bs) = some (u, h) ↔
      ∃ t out outs, M.run s as = some (t, out) ∧ M.run t bs = some (u, outs) ∧ h = out ++ outs := by
  rw [run_append, Option.bind_eq_some_iff]
  constructor
  · rintro ⟨⟨t, out⟩, has, hmap⟩
    obtain ⟨⟨v, outs⟩, hbs, heq⟩ := Option.map_eq_some_iff.mp hmap
    cases heq
    exact ⟨t, out, outs, has, hbs, rfl⟩
  · rintro ⟨t, out, outs, has, hbs, rfl⟩
    exact ⟨(t, out), has, Option.map_eq_some_iff.mpr ⟨(u, outs), hbs, rfl⟩⟩

/-! Runs without outputs. -/

theorem run_cons_silent {s u : σ} {a : α} {as : List α} (h : M.run s (a :: as) = some (u, [])) :
    ∃ t, M.step s a = some (t, []) ∧ M.run t as = some (u, []) := by
  obtain ⟨t, out, outs, hstep, hrun, hnil⟩ := M.run_cons_iff.mp h
  obtain ⟨rfl, rfl⟩ := List.append_eq_nil_iff.mp hnil.symm
  exact ⟨t, hstep, hrun⟩

theorem run_append_silent {s u : σ} {as bs : List α} (h : M.run s (as ++ bs) = some (u, [])) :
    ∃ t, M.run s as = some (t, []) ∧ M.run t bs = some (u, []) := by
  obtain ⟨t, out, outs, has, hbs, hnil⟩ := M.run_append_iff.mp h
  obtain ⟨rfl, rfl⟩ := List.append_eq_nil_iff.mp hnil.symm
  exact ⟨t, has, hbs⟩

theorem along_append {ok : σ → α → Prop} {s t : σ} {as bs : List α} {out : List ε}
    (h : M.Along ok s (as ++ bs)) (hr : M.run s as = some (t, out)) : M.Along ok s as ∧ M.Along ok t bs := by
  induction as generalizing s out with
  | nil =>
    cases hr
    exact ⟨trivial, h⟩
  | cons a as ih =>
    obtain ⟨v, o1, o2, hstep, hrun, -⟩ := M.run_cons_iff.mp hr
    refine ⟨⟨h.1, fun w o hw => ?_⟩, (ih (h.2 v o1 hstep) hrun).2⟩
    rw [hstep] at hw
    cases hw
    exact (ih (h.2 v o1 hstep) hrun).1

theorem along_snoc_iff {ok : σ → α → Prop} {s t : σ} {as : List α} {a : α} {out : List ε}
    (hr : M.run s as = some (t, out)) : M.Along ok s (as ++ [a]) ↔ M.Along ok s as ∧ ok t a := by
  constructor
  · intro h
    obtain ⟨has, ha⟩ := M.along_append h hr
    exact ⟨has, ha.1⟩
  · intro h
    induction as generalizing s out with
    | nil =>
      cases hr
      exact ⟨h.2, fun _ _ _ => trivial⟩
    | cons b as ih =>
      obtain ⟨v, o1, o2, hstep, hrun, -⟩ := M.run_cons_iff.mp hr
      refine ⟨h.1.1, fun w o hw => ?_⟩
      rw [hstep] at hw
      cases hw
      exact ih hrun ⟨h.1.2 v o1 hstep, h.2⟩

theorem alongHistory_snoc_iff {ok : List ε → σ → α → Prop} {s t : σ} {as : List α} {a : α} {h out : List ε}
    (hr : M.run s as = some (t, out)) :
    M.AlongHistory ok h s (as ++ [a]) ↔ M.AlongHistory ok h s as ∧ ok (h ++ out) t a := by
  induction as generalizing s h out with
  | nil =>
    cases hr
    rw [List.append_nil]
    exact ⟨fun hok => ⟨trivial, hok.1⟩, fun hok => ⟨hok.2, fun _ _ _ => trivial⟩⟩
  | cons b as ih =>
    obtain ⟨v, o1, o2, hstep, hrun, rfl⟩ := M.run_cons_iff.mp hr
    have hrest := ih (h := h ++ o1) hrun
    rw [← List.append_assoc]
    constructor
    · rintro ⟨hb, hnext⟩
      obtain ⟨has, ha⟩ := hrest.mp (hnext v o1 hstep)
      refine ⟨⟨hb, fun w o hw => ?_⟩, ha⟩
      rw [hstep] at hw
      cases hw
      exact has
    · rintro ⟨⟨hb, hnext⟩, ha⟩
      refine ⟨hb, fun w o hw => ?_⟩
      rw [hstep] at hw
      cases hw
      exact hrest.mpr ⟨hnext v o1 hstep, ha⟩

/-- Guards that agree on every step agree on every run. -/
theorem alongHistory_congr {ok ok' : List ε → σ → α → Prop}
    (hiff : ∀ h s a t out, M.step s a = some (t, out) → (ok h s a ↔ ok' h s a)) {s t : σ} {as : List α} {h out : List ε}
    (hr : M.run s as = some (t, out)) : M.AlongHistory ok h s as ↔ M.AlongHistory ok' h s as := by
  induction as generalizing s h out with
  | nil => exact Iff.rfl
  | cons a as ih =>
    obtain ⟨v, o1, o2, hstep, hrun, -⟩ := M.run_cons_iff.mp hr
    refine and_congr (hiff h s a v o1 hstep) ?_
    refine forall_congr' fun w => forall_congr' fun o => imp_congr_right fun hw => ?_
    rw [hstep] at hw
    cases hw
    exact ih hrun

variable {M} in
/-- A guard that looks at the history, from one that does not and an invariant of its steps. -/
theorem Along.toHistory {I : List ε → σ → Prop} {ok : σ → α → Prop} {ok' : List ε → σ → α → Prop}
    (hstep : ∀ h s a t out, I h s → ok s a → M.step s a = some (t, out) → I (h ++ out) t)
    (himp : ∀ h s a, I h s → ok s a → ok' h s a) {s : σ} {as : List α} {h : List ε} (hI : I h s) (hok : M.Along ok s as) :
    M.AlongHistory ok' h s as := by
  induction as generalizing s h with
  | nil => trivial
  | cons a as ih => exact ⟨himp h s a hI hok.1, fun t out hs => ih (hstep h s a t out hI hok.1 hs) (hok.2 t out hs)⟩

/-- The run rule for a guard that looks at the history. -/
theorem run_history_induction {I : List ε → σ → Prop} {ok : List ε → σ → α → Prop}
    (hstep : ∀ h s a t out, I h s → ok h s a → M.step s a = some (t, out) → I (h ++ out) t)
    {s t : σ} {as : List α} {h out : List ε} (hI : I h s) (hok : M.AlongHistory ok h s as)
    (hr : M.run s as = some (t, out)) : I (h ++ out) t := by
  induction as generalizing s h out with
  | nil =>
    cases hr
    rw [List.append_nil]
    exact hI
  | cons a as ih =>
    obtain ⟨v, o1, o2, hs, hrun, rfl⟩ := M.run_cons_iff.mp hr
    rw [← List.append_assoc]
    exact ih (hstep h s a v o1 hI hok.1 hs) (hok.2 v o1 hs) hrun

/-- **Run rule.** What each step that meets `ok` preserves of history and state, a run of such steps preserves. -/
theorem run_induction {I : List ε → σ → Prop} {ok : σ → α → Prop}
    (hstep : ∀ h s a t out, I h s → ok s a → M.step s a = some (t, out) → I (h ++ out) t)
    {s t : σ} {as : List α} {h out : List ε} (hI : I h s) (hok : M.Along ok s as)
    (hr : M.run s as = some (t, out)) : I (h ++ out) t := by
  have hhistory : M.AlongHistory (fun _ => ok) h s as :=
    hok.toHistory (I := fun _ _ => True) (fun _ _ _ _ _ _ _ _ => trivial) (fun _ _ _ _ hs => hs) trivial
  exact M.run_history_induction hstep hI hhistory hr

/-- The run rule with the inputs so far in the invariant, for results that point at an earlier step. -/
theorem run_snoc_induction {I : List α → List ε → σ → Prop} {ok : σ → α → Prop} {s₀ : σ} (hnil : I [] [] s₀)
    (hstep : ∀ as h s a t out, M.run s₀ as = some (s, h) → I as h s → ok s a → M.step s a = some (t, out) →
      I (as ++ [a]) (h ++ out) t)
    {as : List α} {t : σ} {h : List ε} (hok : M.Along ok s₀ as) (hr : M.run s₀ as = some (t, h)) : I as h t := by
  induction as using List.reverseRecOn generalizing t h with
  | nil =>
    cases hr
    exact hnil
  | append_singleton as a ih =>
    obtain ⟨s, h₁, h₂, hrun, hlast, rfl⟩ := M.run_append_iff.mp hr
    obtain ⟨hok₁, hok₂⟩ := M.along_append hok hrun
    obtain ⟨u, out, outs, hs, hnone, rfl⟩ := M.run_cons_iff.mp hlast
    cases hnone
    rw [List.append_nil]
    exact hstep as h₁ s a t out hrun (ih hok₁ hrun) hok₂.1 hs

theorem run_invariant {I : σ → Prop} {ok : σ → α → Prop}
    (hstep : ∀ s a t out, I s → ok s a → M.step s a = some (t, out) → I t)
    {s t : σ} {as : List α} {out : List ε} (hI : I s) (hok : M.Along ok s as)
    (hr : M.run s as = some (t, out)) : I t :=
  M.run_induction (I := fun _ s => I s) (fun _ s a t out hI hok hs => hstep s a t out hI hok hs) (h := []) hI hok hr

/-- A relation over outputs that holds of the empty run and composes holds of every run when it holds of every step. -/
theorem run_compose {I : σ → Prop} {ok : σ → α → Prop} {R : σ → List ε → σ → Prop} (hnil : ∀ s, R s [] s)
    (hcomp : ∀ {s t u out out'}, R s out t → R t out' u → R s (out ++ out') u)
    (hstep : ∀ s a t out, I s → ok s a → M.step s a = some (t, out) → I t ∧ R s out t)
    {s t : σ} {as : List α} {out : List ε} (hI : I s) (hok : M.Along ok s as)
    (hr : M.run s as = some (t, out)) : R s out t := by
  induction as generalizing s out with
  | nil =>
    cases hr
    exact hnil _
  | cons a as ih =>
    obtain ⟨v, o1, o2, hs, hrun, rfl⟩ := M.run_cons_iff.mp hr
    obtain ⟨hIv, hR⟩ := hstep s a v o1 hI hok.1 hs
    exact hcomp hR (ih hIv (hok.2 v o1 hs) hrun)

/-- A condition on the inputs alone is a guard. -/
theorem along_of_mem {p : α → Prop} {as : List α} (h : ∀ a ∈ as, p a) (s : σ) : M.Along (fun _ a => p a) s as := by
  induction as generalizing s with
  | nil => trivial
  | cons a as ih =>
    exact ⟨h a List.mem_cons_self, fun t _ _ => ih (fun b hb => h b (List.mem_cons_of_mem _ hb)) t⟩

theorem along_true (s : σ) (as : List α) : M.Along (fun _ _ => True) s as :=
  M.along_of_mem (p := fun _ => True) (fun _ _ => trivial) s

variable {M} in
/-- A guard that follows from another one and an invariant of its steps. -/
theorem Along.of_invariant {I : σ → Prop} {ok ok' : σ → α → Prop}
    (hstep : ∀ s a t out, I s → ok s a → M.step s a = some (t, out) → I t) (himp : ∀ s a, I s → ok s a → ok' s a)
    {s : σ} {as : List α} (hI : I s) (h : M.Along ok s as) : M.Along ok' s as := by
  induction as generalizing s with
  | nil => trivial
  | cons a as ih => exact ⟨himp s a hI h.1, fun t out hs => ih (hstep s a t out hI h.1 hs) (h.2 t out hs)⟩

variable {M} in
theorem Along.mono {ok ok' : σ → α → Prop} {s : σ} {as : List α} (h : M.Along ok s as)
    (himp : ∀ s a, ok s a → ok' s a) : M.Along ok' s as :=
  h.of_invariant (I := fun _ => True) (fun _ _ _ _ _ _ _ => trivial) (fun s a _ hs => himp s a hs) trivial

variable {M} in
theorem Along.and {ok ok' : σ → α → Prop} {s : σ} {as : List α} (h : M.Along ok s as) (h' : M.Along ok' s as) :
    M.Along (fun s a => ok s a ∧ ok' s a) s as := by
  induction as generalizing s with
  | nil => trivial
  | cons a as ih => exact ⟨⟨h.1, h'.1⟩, fun t out hs => ih (h.2 t out hs) (h'.2 t out hs)⟩

/-- A guard that can be checked can be checked along a run. -/
instance decidableAlong {ok : σ → α → Prop} [∀ s a, Decidable (ok s a)] : ∀ s as, Decidable (M.Along ok s as)
  | _, [] => isTrue trivial
  | s, a :: as =>
    match hstep : M.step s a with
    | none => decidable_of_iff (ok s a) ⟨fun h => ⟨h, by simp [hstep]⟩, And.left⟩
    | some (t, out) =>
      have : Decidable (M.Along ok t as) := decidableAlong t as
      decidable_of_iff (ok s a ∧ M.Along ok t as)
        ⟨fun h => ⟨h.1, by simpa [hstep] using h.2⟩, fun h => ⟨h.1, h.2 t out hstep⟩⟩

instance decidableAlongHistory {ok : List ε → σ → α → Prop} [∀ h s a, Decidable (ok h s a)] :
    ∀ h s as, Decidable (M.AlongHistory ok h s as)
  | _, _, [] => isTrue trivial
  | h, s, a :: as =>
    match hstep : M.step s a with
    | none => decidable_of_iff (ok h s a) ⟨fun hok => ⟨hok, by simp [hstep]⟩, And.left⟩
    | some (t, out) =>
      have : Decidable (M.AlongHistory ok (h ++ out) t as) := decidableAlongHistory (h ++ out) t as
      decidable_of_iff (ok h s a ∧ M.AlongHistory ok (h ++ out) t as)
        ⟨fun hok => ⟨hok.1, by simpa [hstep] using hok.2⟩, fun hok => ⟨hok.1, hok.2 t out hstep⟩⟩

/-- What the outputs of a step say about its state and input, the outputs of a run say about all its steps. -/
theorem forall_outputs_iff {P : ε → Prop} {ok : σ → α → Prop}
    (hstep : ∀ s a t out, M.step s a = some (t, out) → ((∀ e ∈ out, P e) ↔ ok s a)) {s t : σ} {as : List α} {h : List ε}
    (hr : M.run s as = some (t, h)) : (∀ e ∈ h, P e) ↔ M.Along ok s as := by
  induction as generalizing s h with
  | nil =>
    cases hr
    exact iff_of_true (by simp) trivial
  | cons a as ih =>
    obtain ⟨v, o1, o2, hs, hrun, rfl⟩ := M.run_cons_iff.mp hr
    rw [List.forall_mem_append]
    refine and_congr (hstep s a v o1 hs) ((ih hrun).trans ⟨fun hrest w o hw => ?_, fun hrest => hrest v o1 hs⟩)
    rw [hs] at hw
    cases hw
    exact hrest

end Machine
end IbarraGateway
