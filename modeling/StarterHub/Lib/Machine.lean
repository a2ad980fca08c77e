import Mathlib.Logic.Relation

/-!
# Machines

A machine moves a state by actions, each of them enabled or not.  `Reaches` is any number of steps;
`ReachesIn Q` is any number of steps that all end in a state satisfying `Q` (the runs that keep an assumption
about the environment, such as a deadline that nobody misses), and `ReachesBy P` any number of steps by actions that
`P` allows in their turn.  The rules at the end turn what one step
preserves into what a run preserves, and build long runs out of short ones.  `Inevitable L P Q` is about all runs at
once: however a run by actions of `P` goes on, it gets to `Q`, and the actions of `L` alone never leave it stuck before.
-/

namespace Transition

/-- `step s a` is the state after the action `a`, if `a` is enabled in `s`. -/
structure Machine (σ α : Type*) where
  step : σ → α → Option σ

namespace Machine

variable {σ α : Type*} (m : Machine σ α)

/-- Some action leads from `s` to `s'`. -/
def Next (s s' : σ) : Prop := ∃ a, m.step s a = some s'

def Reaches : σ → σ → Prop := Relation.ReflTransGen m.Next

/-- Any number of steps, each of them into a state satisfying `Q`. -/
def ReachesIn (Q : σ → Prop) : σ → σ → Prop := Relation.ReflTransGen fun s s' => m.Next s s' ∧ Q s'

/-- Any number of steps, each by an action that `P` allows in the state it is taken in. -/
def ReachesBy (P : σ → α → Prop) : σ → σ → Prop :=
  Relation.ReflTransGen fun s s' => ∃ a, P s a ∧ m.step s a = some s'

/-- The state after a list of actions, if every one of them is enabled in its turn. -/
def run (s : σ) : List α → Option σ
  | [] => some s
  | a :: as => (m.step s a).bind fun s' => run s' as

/-- Some action of `L` is enabled until `Q` holds, and no run by actions of `P` goes on for ever without it. -/
inductive Inevitable (L P : σ → α → Prop) (Q : σ → Prop) : σ → Prop
  | now {s : σ} (h : Q s) : Inevitable L P Q s
  | next {s t : σ} {a : α} (ha : L s a) (h : m.step s a = some t)
      (hall : ∀ a t, P s a → m.step s a = some t → Inevitable L P Q t) : Inevitable L P Q s

variable {m} {Q : σ → Prop} {s t u : σ}

theorem Reaches.refl (s : σ) : m.Reaches s s := Relation.ReflTransGen.refl

theorem Reaches.trans (h : m.Reaches s t) (h' : m.Reaches t u) : m.Reaches s u :=
  Relation.ReflTransGen.trans h h'

theorem Reaches.tail {a : α} (h : m.Reaches s t) (h' : m.step t a = some u) : m.Reaches s u :=
  Relation.ReflTransGen.tail h ⟨a, h'⟩

theorem ReachesIn.refl (s : σ) : m.ReachesIn Q s s := Relation.ReflTransGen.refl

theorem ReachesIn.trans (h : m.ReachesIn Q s t) (h' : m.ReachesIn Q t u) : m.ReachesIn Q s u :=
  Relation.ReflTransGen.trans h h'

theorem ReachesIn.tail {a : α} (h : m.ReachesIn Q s t) (h' : m.step t a = some u) (hu : Q u) :
    m.ReachesIn Q s u :=
  Relation.ReflTransGen.tail h ⟨⟨a, h'⟩, hu⟩

theorem ReachesIn.reaches (h : m.ReachesIn Q s t) : m.Reaches s t :=
  Relation.ReflTransGen.mono (fun _ _ h => h.1) _ _ h

/-- A run inside `Q` that starts in `Q` ends in `Q`. -/
theorem ReachesIn.holds (h : m.ReachesIn Q s t) (hs : Q s) : Q t := by
  cases h with
  | refl => exact hs
  | tail _ h => exact h.2

/-- The invariant rule: what holds at the start and is kept by every step holds at the end of every run. -/
theorem Reaches.invariant {P : σ → Prop} (h : m.Reaches s t)
    (hstep : ∀ s a s', P s → m.step s a = some s' → P s') (hs : P s) : P t := by
  induction h with
  | refl => exact hs
  | tail _ h ih =>
    obtain ⟨a, ha⟩ := h
    exact hstep _ a _ ih ha

/-- The projection rule: a view that every step leaves alone or moves as another machine does runs on that machine. -/
theorem Reaches.project {τ β : Type*} {m' : Machine τ β} (f : σ → τ) (h : m.Reaches s t)
    (hstep : ∀ s a s', m.step s a = some s' → f s' = f s ∨ m'.Next (f s) (f s')) : m'.Reaches (f s) (f t) := by
  induction h with
  | refl => exact Reaches.refl _
  | tail _ h ih =>
    obtain ⟨a, ha⟩ := h
    rcases hstep _ a _ ha with heq | hnext
    · rwa [heq]
    · exact Relation.ReflTransGen.tail ih hnext

/-- The invariant rule inside `Q`: the step may use that both its states satisfy `Q`. -/
theorem ReachesIn.invariant {P : σ → Prop} (h : m.ReachesIn Q s t)
    (hstep : ∀ s a s', Q s → Q s' → P s → m.step s a = some s' → P s') (hq : Q s) (hs : P s) : P t := by
  induction h with
  | refl => exact hs
  | tail h h' ih =>
    obtain ⟨⟨a, ha⟩, hq'⟩ := h'
    exact hstep _ a _ (ReachesIn.holds h hq) hq' ih ha

section

variable {P : σ → α → Prop}

theorem ReachesBy.refl (s : σ) : m.ReachesBy P s s := Relation.ReflTransGen.refl

theorem ReachesBy.trans (h : m.ReachesBy P s t) (h' : m.ReachesBy P t u) : m.ReachesBy P s u :=
  Relation.ReflTransGen.trans h h'

theorem ReachesBy.head {a : α} (ha : P s a) (h : m.step s a = some t) (h' : m.ReachesBy P t u) : m.ReachesBy P s u :=
  Relation.ReflTransGen.head ⟨a, ha, h⟩ h'

theorem ReachesBy.reaches (h : m.ReachesBy P s t) : m.Reaches s t :=
  Relation.ReflTransGen.mono (fun _ _ ⟨a, _, h⟩ => ⟨a, h⟩) _ _ h

theorem Reaches.reachesBy (h : m.Reaches s t) : m.ReachesBy (fun _ _ => True) s t :=
  Relation.ReflTransGen.mono (fun _ _ ⟨a, h⟩ => ⟨a, trivial, h⟩) _ _ h

/-- The invariant rule for allowed actions. -/
theorem ReachesBy.invariant {I : σ → Prop} (h : m.ReachesBy P s t)
    (hstep : ∀ s a s', I s → P s a → m.step s a = some s' → I s') (hs : I s) : I t := by
  induction h with
  | refl => exact hs
  | tail _ h ih =>
    obtain ⟨a, ha, h⟩ := h
    exact hstep _ a _ ih ha h

/-- The simulation rule: if every allowed step of one machine can be followed by a run of another, so can every run. -/
theorem ReachesBy.simulate {τ β : Type*} {m' : Machine τ β} {P' : τ → β → Prop} {R : σ → τ → Prop} {u : τ}
    (h : m.ReachesBy P s t)
    (hstep : ∀ s a s' u, R s u → P s a → m.step s a = some s' → ∃ v, m'.ReachesBy P' u v ∧ R s' v) (hs : R s u) :
    ∃ v, m'.ReachesBy P' u v ∧ R t v := by
  induction h with
  | refl => exact ⟨u, ReachesBy.refl u, hs⟩
  | tail _ h ih =>
    obtain ⟨a, ha, h⟩ := h
    obtain ⟨v, hv, hR⟩ := ih
    obtain ⟨w, hw, hR'⟩ := hstep _ a _ v hR ha h
    exact ⟨w, hv.trans hw, hR'⟩

/-- The variant rule: as long as `Q` does not hold an action of `L` is enabled, and every action of `P` keeps the
invariant and lowers the measure. -/
theorem inevitable_of_measure {L : σ → α → Prop} {I : σ → Prop} (μ : σ → Nat)
    (hprogress : ∀ s, I s → Q s ∨ ∃ a t, L s a ∧ m.step s a = some t)
    (hstep : ∀ s a t, I s → P s a → m.step s a = some t → I t ∧ μ t < μ s) (hs : I s) : m.Inevitable L P Q s := by
  have hmeasure : ∀ n s, I s → μ s < n → m.Inevitable L P Q s := by
    intro n
    induction n with
    | zero => exact fun s _ hn => absurd hn (Nat.not_lt_zero _)
    | succ n ih =>
      intro s hs hn
      rcases hprogress s hs with hq | ⟨a, t, ha, h⟩
      · exact .now hq
      · refine .next ha h fun b u hb hu => ?_
        obtain ⟨hI, hlt⟩ := hstep s b u hs hb hu
        exact ih u hI (Nat.lt_of_lt_of_le hlt (Nat.le_of_lt_succ hn))
  exact hmeasure (μ s + 1) s hs (Nat.lt_succ_self _)

end

theorem reaches_of_run {l : List α} (h : m.run s l = some t) : m.Reaches s t := by
  induction l generalizing s with
  | nil => cases h; exact Reaches.refl _
  | cons a l ih =>
    obtain ⟨s', ha, hl⟩ := Option.bind_eq_some_iff.1 h
    exact Relation.ReflTransGen.head ⟨a, ha⟩ (ih hl)

/-- A sweep: if the stage `k` can always be brought to the stage `k + 1`, then stage `0` can be brought to any
stage. -/
theorem ReachesIn.sweep {P : Nat → σ → Prop} (n : Nat)
    (hstep : ∀ k < n, ∀ t, P k t → ∃ u, m.ReachesIn Q t u ∧ P (k + 1) u) (hs : P 0 s) :
    ∃ u, m.ReachesIn Q s u ∧ P n u := by
  induction n with
  | zero => exact ⟨s, ReachesIn.refl s, hs⟩
  | succ n ih =>
    obtain ⟨t, hst, ht⟩ := ih fun k hk => hstep k (Nat.lt_succ_of_lt hk)
    obtain ⟨u, htu, hu⟩ := hstep n (Nat.lt_succ_self n) t ht
    exact ⟨u, hst.trans htu, hu⟩

theorem Reaches.sweep {P : Nat → σ → Prop} (n : Nat)
    (hstep : ∀ k < n, ∀ t, P k t → ∃ u, m.Reaches t u ∧ P (k + 1) u) (hs : P 0 s) :
    ∃ u, m.Reaches s u ∧ P n u := by
  have hin : ∀ {s t : σ}, m.Reaches s t → m.ReachesIn (fun _ => True) s t :=
    fun h => Relation.ReflTransGen.mono (fun _ _ h => ⟨h, trivial⟩) _ _ h
  obtain ⟨u, hu, hP⟩ := ReachesIn.sweep (m := m) (Q := fun _ => True) n
    (fun k hk t ht => (hstep k hk t ht).imp fun _ h => ⟨hin h.1, h.2⟩) hs
  exact ⟨u, hu.reaches, hP⟩

end Machine

end Transition
