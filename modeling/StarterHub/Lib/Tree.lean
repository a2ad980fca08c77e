/-!
# Trees of tables

A value is a scalar or a table of values by key.  `set` writes a value at a path, making every table on its way, and
`build` writes a list of scalars, one after the other.  Paths that are not comparable do not disturb each other, and
no write ever takes a key out of a table.
-/

namespace Tree

/-! ### Tables -/

/-- Where no key occurs twice, every entry is found. -/
theorem lookup_of_nodup {κ β : Type} [BEq κ] [LawfulBEq κ] {k : κ} {v : β} {entries : List (κ × β)}
    (hn : (entries.map Prod.fst).Nodup) (h : (k, v) ∈ entries) : entries.lookup k = some v := by
  induction entries with
  | nil => cases h
  | cons e entries ih =>
    obtain ⟨he, hn⟩ := List.nodup_cons.1 hn
    rcases List.mem_cons.1 h with rfl | h
    · exact List.lookup_cons_self
    · have hne : k ≠ e.1 := by
        rintro rfl
        exact he (List.mem_map.2 ⟨_, h, rfl⟩)
      rw [List.lookup_cons, beq_false_of_ne hne, ih hn h]

/-- A look-up commutes with a map of the values. -/
theorem lookup_map {κ β γ : Type} [BEq κ] (f : β → γ) (k : κ) (entries : List (κ × β)) :
    (entries.map fun e => (e.1, f e.2)).lookup k = (entries.lookup k).map f := by
  induction entries with
  | nil => rfl
  | cons e entries ih =>
    rw [List.map_cons, List.lookup_cons, List.lookup_cons, ih]
    cases k == e.1 <;> rfl

section

variable {κ β : Type} [DecidableEq κ]

/-- Puts the entry in, in the place of the one with its key if there is one. -/
def insert (k : κ) (v : β) : List (κ × β) → List (κ × β)
  | [] => [(k, v)]
  | (j, w) :: rest => if j = k then (k, v) :: rest else (j, w) :: insert k v rest

theorem lookup_insert_self (k : κ) (v : β) (entries : List (κ × β)) : (insert k v entries).lookup k = some v := by
  induction entries with
  | nil => simp [insert]
  | cons e entries ih =>
    unfold insert
    split
    · simp
    · next h => rw [List.lookup_cons, beq_false_of_ne (Ne.symm h), ih]

theorem lookup_insert_ne {j k : κ} (h : j ≠ k) (v : β) (entries : List (κ × β)) :
    (insert k v entries).lookup j = entries.lookup j := by
  induction entries with
  | nil => simp [insert, List.lookup_cons, beq_false_of_ne h]
  | cons e entries ih =>
    obtain ⟨i, w⟩ := e
    unfold insert
    split
    · next he =>
      subst he
      simp [List.lookup_cons, beq_false_of_ne h]
    · rw [List.lookup_cons, List.lookup_cons, ih]

theorem mem_keys_insert {j k : κ} {v : β} {entries : List (κ × β)} :
    j ∈ (insert k v entries).map Prod.fst ↔ j = k ∨ j ∈ entries.map Prod.fst := by
  induction entries with
  | nil => simp [insert]
  | cons e entries ih =>
    unfold insert
    split
    · next he => simp [he]
    · rw [List.map_cons, List.mem_cons, ih, List.map_cons, List.mem_cons]
      exact or_left_comm

end

/-! ### Values -/

inductive Value (κ α : Type) where
  | scalar (a : α)
  | table (entries : List (κ × Value κ α))

namespace Value

variable {κ α : Type}

/-- A scalar has no entries. -/
def entries : Value κ α → List (κ × Value κ α)
  | scalar _ => []
  | table entries => entries

variable [DecidableEq κ]

def child (t : Value κ α) (k : κ) : Option (Value κ α) := t.entries.lookup k

/-- Whatever stands in the way of the path becomes a table. -/
def set : List κ → Value κ α → Value κ α → Value κ α
  | [], v, _ => v
  | k :: path, v, t => table (insert k (set path v ((t.child k).getD (table []))) t.entries)

def get : List κ → Value κ α → Option (Value κ α)
  | [], t => some t
  | k :: path, t => (t.child k).bind (get path)

/-- The keys of the table at a path. -/
def keysAt (path : List κ) (t : Value κ α) : List κ := ((get path t).elim [] entries).map Prod.fst

def IsTable (path : List κ) (t : Value κ α) : Prop := ∃ entries, get path t = some (table entries)

variable {p q : List κ} {k : κ} {t v : Value κ α}

theorem child_set_self (k : κ) (p : List κ) (v t : Value κ α) :
    (set (k :: p) v t).child k = some (set p v ((t.child k).getD (table []))) := lookup_insert_self ..

theorem child_set_ne {j : κ} (h : j ≠ k) (p : List κ) (v t : Value κ α) : (set (k :: p) v t).child j = t.child j :=
  lookup_insert_ne h ..

theorem get_append (p q : List κ) (t : Value κ α) : get (p ++ q) t = (get p t).bind (get q) := by
  induction p generalizing t with
  | nil => rfl
  | cons k p ih =>
    rw [List.cons_append, get, get, Option.bind_assoc]
    exact congrArg _ (funext fun u => ih u)

theorem get_nil_table (h : p ≠ []) : get p (table [] : Value κ α) = none := by
  cases p with
  | nil => exact absurd rfl h
  | cons k p => rfl

theorem keysAt_nil_table (p : List κ) : keysAt p (table [] : Value κ α) = [] := by
  cases p <;> rfl

/-! ### One write -/

theorem get_set_self (p : List κ) (v t : Value κ α) : get p (set p v t) = some v := by
  induction p generalizing t with
  | nil => rfl
  | cons k p ih => rw [get, child_set_self, Option.bind_some, ih]

theorem get_set_ne (hpq : ¬ p <+: q) (hqp : ¬ q <+: p) : get q (set p v t) = get q t := by
  induction p generalizing q t with
  | nil => exact absurd List.nil_prefix hpq
  | cons k p ih =>
    cases q with
    | nil => exact absurd List.nil_prefix hqp
    | cons j q =>
      by_cases hj : j = k
      · subst hj
        rw [List.prefix_cons_inj] at hpq hqp
        rw [get, child_set_self, Option.bind_some, ih hpq hqp, get]
        cases t.child j with
        | some u => rfl
        | none =>
          -- the path was not there, and ends below the table that is made for it
          refine get_nil_table ?_
          rintro rfl
          exact hqp List.nil_prefix
      · rw [get, child_set_ne hj, get]

theorem mem_keysAt_set (h : ¬ p <+: q) : k ∈ keysAt q (set p v t) ↔ q ++ [k] <+: p ∨ k ∈ keysAt q t := by
  induction q generalizing p t with
  | nil =>
    cases p with
    | nil => exact absurd List.nil_prefix h
    | cons j p => simp [keysAt, get, set, entries, mem_keys_insert, List.cons_prefix_cons]
  | cons j q ih =>
    cases p with
    | nil => exact absurd List.nil_prefix h
    | cons i p =>
      by_cases hj : j = i
      · subst hj
        rw [List.prefix_cons_inj] at h
        rw [List.cons_append, List.prefix_cons_inj]
        have := ih (t := (t.child j).getD (table [])) h
        simp only [keysAt, get, child_set_self, Option.bind_some] at this ⊢
        rw [this]
        cases hc : t.child j with
        | some u => rfl
        | none =>
          have hnil := keysAt_nil_table (α := α) q
          rw [keysAt] at hnil
          rw [Option.getD_none, hnil]
          rfl
      · simp [keysAt, get, child_set_ne hj, hj]

theorem isTable_set (h : ¬ p <+: q) (ht : IsTable q t) : IsTable q (set p v t) := by
  induction q generalizing p t with
  | nil =>
    cases p with
    | nil => exact absurd List.nil_prefix h
    | cons j p => exact ⟨_, rfl⟩
  | cons j q ih =>
    cases p with
    | nil => exact absurd List.nil_prefix h
    | cons i p =>
      obtain ⟨entries, ht⟩ := ht
      by_cases hj : j = i
      · subst hj
        rw [List.prefix_cons_inj] at h
        obtain ⟨u, hu, hget⟩ := Option.bind_eq_some_iff.1 ht
        obtain ⟨entries', hset⟩ := ih h ⟨entries, hget⟩
        exact ⟨entries', by rw [get, child_set_self, Option.bind_some, hu, Option.getD_some, hset]⟩
      · exact ⟨entries, by rwa [get, child_set_ne hj]⟩

theorem isTable_set_append (h : q ≠ []) : IsTable p (set (p ++ q) v t) := by
  induction p generalizing t with
  | nil =>
    cases q with
    | nil => exact absurd rfl h
    | cons k q => exact ⟨_, rfl⟩
  | cons k p ih =>
    obtain ⟨entries, hset⟩ := ih (t := (t.child k).getD (table []))
    exact ⟨entries, by rw [List.cons_append, get, child_set_self, Option.bind_some, hset]⟩

/-! ### Many writes -/

/-- Writes the scalars, the later ones over the earlier ones. -/
def write (writes : List (List κ × α)) (t : Value κ α) : Value κ α :=
  writes.foldl (fun t e => set e.1 (scalar e.2) t) t

def build (writes : List (List κ × α)) : Value κ α := write writes (table [])

/-- Neither of the paths goes through the end of the other. -/
def Apart (p q : List κ) : Prop := ¬ p <+: q ∧ ¬ q <+: p

instance : Decidable (Apart p q) := inferInstanceAs (Decidable (_ ∧ _))

variable {writes : List (List κ × α)}

private theorem get_write (h : ∀ e ∈ writes, e.1 = q ∨ Apart e.1 q) :
    get q (write writes t) = ((writes.reverse.lookup q).map scalar).or (get q t) := by
  induction writes generalizing t with
  | nil => rfl
  | cons e writes ih =>
    obtain ⟨p, a⟩ := e
    have hwrite : write ((p, a) :: writes) t = write writes (set p (scalar a) t) := rfl
    rw [hwrite, ih fun e he => h e (List.mem_cons_of_mem _ he), List.reverse_cons, List.lookup_append]
    rcases h (p, a) (List.mem_cons_self ..) with rfl | ⟨hpq, hqp⟩
    · cases writes.reverse.lookup p <;> simp [get_set_self]
    · have hne : q ≠ p := by
        rintro rfl
        exact hpq (List.prefix_refl _)
      cases writes.reverse.lookup q <;> simp [get_set_ne hpq hqp, List.lookup_cons, beq_false_of_ne hne]

/-- At a path that is apart from all the others stands what was written there last. -/
theorem get_build (hq : q ≠ []) (h : ∀ e ∈ writes, e.1 = q ∨ Apart e.1 q) :
    get q (build writes) = (writes.reverse.lookup q).map scalar := by
  rw [build, get_write h, get_nil_table hq, Option.or_none]

/-- The keys at a path where nothing was written are those of the paths that go through it. -/
theorem mem_keysAt_build (h : ∀ e ∈ writes, ¬ e.1 <+: q) :
    k ∈ keysAt q (build writes) ↔ ∃ e ∈ writes, q ++ [k] <+: e.1 := by
  have hwrite : ∀ t : Value κ α, k ∈ keysAt q (write writes t) ↔ (∃ e ∈ writes, q ++ [k] <+: e.1) ∨ k ∈ keysAt q t := by
    induction writes with
    | nil => simp [write]
    | cons e writes ih =>
      intro t
      have hstep : write (e :: writes) t = write writes (set e.1 (scalar e.2) t) := rfl
      rw [hstep, ih (fun e he => h e (List.mem_cons_of_mem _ he)), mem_keysAt_set (h e (List.mem_cons_self ..))]
      simp only [List.mem_cons, exists_eq_or_imp]
      exact or_left_comm.trans or_assoc.symm
  rw [build, hwrite, keysAt_nil_table]
  simp

/-- It is a table once one of them does. -/
theorem isTable_build (h : ∀ e ∈ writes, ¬ e.1 <+: q) (hq : ∃ e ∈ writes, q <+: e.1) : IsTable q (build writes) := by
  have hwrite : ∀ t : Value κ α, (IsTable q t ∨ ∃ e ∈ writes, q <+: e.1) → IsTable q (write writes t) := by
    clear hq
    induction writes with
    | nil => simp [write]
    | cons e writes ih =>
      intro t ht
      have he := h e (List.mem_cons_self ..)
      refine ih (fun e he => h e (List.mem_cons_of_mem _ he)) _ ?_
      rcases ht with ht | ⟨f, hf, hqf⟩
      · exact .inl (isTable_set he ht)
      · rcases List.mem_cons.1 hf with rfl | hf
        · obtain ⟨rest, hrest⟩ := hqf
          have hne : rest ≠ [] := by
            rintro rfl
            rw [← hrest, List.append_nil] at he
            exact he (List.prefix_refl q)
          refine .inl ?_
          show IsTable q (set f.1 (scalar f.2) t)
          rw [← hrest]
          exact isTable_set_append hne
        · exact .inr ⟨f, hf, hqf⟩
  exact hwrite _ (.inr hq)

end Value

end Tree
