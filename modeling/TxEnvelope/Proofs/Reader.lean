import TxEnvelope.Reader

/-! When results and readers that are put together succeed, said without running them. -/

set_option autoImplicit false

namespace TxEnvelope

theorem mapError_eq_ok_iff {ε ε' α : Type} {f : ε → ε'} {result : Except ε α} {a : α} :
    result.mapError f = .ok a ↔ result = .ok a := by
  cases result with
  | error e => exact ⟨nofun, nofun⟩
  | ok b => constructor <;> (rintro ⟨⟩; rfl)

theorem toOption_eq_some_iff {ε α : Type} {result : Except ε α} {a : α} :
    result.toOption = some a ↔ result = .ok a := by
  cases result <;> simp [Except.toOption]

theorem bind_eq_ok_iff {ε α β : Type} {result : Except ε α} {f : α → Except ε β} {b : β} :
    (result >>= f) = .ok b ↔ ∃ a, result = .ok a ∧ f a = .ok b := by
  cases result <;> simp [bind, Except.bind]

theorem bind_of_eq_ok {ε α β : Type} {result : Except ε α} {a : α} (h : result = .ok a)
    (f : α → Except ε β) : (result >>= f) = f a := by
  rw [h]
  rfl

theorem map_eq_ok_iff {ε α β : Type} {result : Except ε α} {f : α → β} {b : β} :
    result.map f = .ok b ↔ ∃ a, result = .ok a ∧ f a = b := by
  cases result <;> simp [Except.map]

theorem bind_eq_error_iff {ε α β : Type} {result : Except ε α} {f : α → Except ε β} {e : ε} :
    (result >>= f) = .error e ↔ result = .error e ∨ ∃ a, result = .ok a ∧ f a = .error e := by
  cases result <;> simp [bind, Except.bind]

theorem map_eq_error_iff {ε α β : Type} {result : Except ε α} {f : α → β} {e : ε} :
    result.map f = .error e ↔ result = .error e := by
  cases result <;> simp [Except.map]

theorem mapM_cons_eq_some_iff {α β : Type} {f : α → Option β} {a : α} {as : List α}
    {values : List β} :
    (a :: as).mapM f = some values ↔
      ∃ value, f a = some value ∧ ∃ others, as.mapM f = some others ∧ value :: others = values := by
  simp [Option.bind_eq_some_iff]

theorem length_of_mapM {α β : Type} {f : α → Option β} {as : List α} {values : List β}
    (mapped : as.mapM f = some values) : values.length = as.length := by
  induction as generalizing values with
  | nil =>
    cases mapped
    rfl
  | cons a as ih =>
    obtain ⟨value, -, others, rests, rfl⟩ := mapM_cons_eq_some_iff.1 mapped
    rw [List.length_cons, List.length_cons, ih rests]

theorem mapM_map_eq_some {α β γ : Type} {f : β → Option γ} {g : α → γ} {h : α → β} {as : List α}
    (each : ∀ a ∈ as, f (h a) = some (g a)) : (as.map h).mapM f = some (as.map g) := by
  induction as with
  | nil => rfl
  | cons a as ih =>
    rw [List.forall_mem_cons] at each
    exact mapM_cons_eq_some_iff.2 ⟨g a, each.1, as.map g, ih each.2, rfl⟩

namespace Reader

variable {σ ε α β : Type}

theorem refine_eq_ok_iff {reader : Reader σ ε α} {check : α → Except ε β} {input rest : List σ}
    {b : β} :
    (reader.refine check).read input = .ok (b, rest) ↔
      ∃ a, reader.read input = .ok (a, rest) ∧ check a = .ok b := by
  constructor
  · intro h
    simp only [refine] at h
    split at h
    · cases h
    · next a mid first =>
      split at h
      · cases h
      · next b' checked =>
        cases h
        exact ⟨a, first, checked⟩
  · rintro ⟨a, first, checked⟩
    simp only [refine, first, checked]

theorem refine_eq_error_iff {reader : Reader σ ε α} {check : α → Except ε β} {input : List σ}
    {e : ε} :
    (reader.refine check).read input = .error e ↔
      reader.read input = .error e ∨
        ∃ a rest, reader.read input = .ok (a, rest) ∧ check a = .error e := by
  simp only [refine]
  cases first : reader.read input with
  | error e' => simp
  | ok result =>
    obtain ⟨a, rest⟩ := result
    cases checked : check a <;> simp [checked]

theorem refine_refine {γ : Type} (reader : Reader σ ε α) (first : α → Except ε β)
    (second : β → Except ε γ) :
    ((reader.refine first).refine second).read
      = (reader.refine fun a => first a >>= second).read := by
  funext input
  simp only [refine]
  cases reader.read input with
  | error e => rfl
  | ok result =>
    obtain ⟨a, rest⟩ := result
    dsimp only
    cases first a <;> rfl

theorem map_eq_ok_iff {reader : Reader σ ε α} {f : α → β} {input rest : List σ} {b : β} :
    (reader.map f).read input = .ok (b, rest) ↔
      ∃ a, reader.read input = .ok (a, rest) ∧ f a = b := by
  rw [map, refine_eq_ok_iff]
  simp only [Except.ok.injEq]

theorem map_eq_error_iff {reader : Reader σ ε α} {f : α → β} {input : List σ} {e : ε} :
    (reader.map f).read input = .error e ↔ reader.read input = .error e := by
  rw [map, refine_eq_error_iff]
  simp

theorem both_eq_ok_iff {first : Reader σ ε α} {second : Reader σ ε β} {input rest : List σ}
    {ab : α × β} :
    (first.both second).read input = .ok (ab, rest) ↔
      ∃ mid, first.read input = .ok (ab.1, mid) ∧ second.read mid = .ok (ab.2, rest) := by
  constructor
  · intro h
    simp only [both] at h
    split at h
    · cases h
    · next a mid one =>
      split at h
      · cases h
      · next b last two =>
        cases h
        exact ⟨mid, one, two⟩
  · rintro ⟨mid, one, two⟩
    simp only [both, one, two]

theorem both_eq_error_iff {first : Reader σ ε α} {second : Reader σ ε β} {input : List σ} {e : ε} :
    (first.both second).read input = .error e ↔
      first.read input = .error e ∨
        ∃ a mid, first.read input = .ok (a, mid) ∧ second.read mid = .error e := by
  simp only [both]
  cases one : first.read input with
  | error e' => simp
  | ok result =>
    obtain ⟨a, mid⟩ := result
    cases two : second.read mid <;> simp [two, and_assoc]

/-- Rounds of reading: the values that came off the front one by one, and what is left. -/
inductive Rounds (reader : Reader σ ε α) : List σ → List α → List σ → Prop where
  | stop (input : List σ) : Rounds reader input [] input
  | round {input mid rest : List σ} {a : α} {values : List α}
    (first : reader.read input = .ok (a, mid)) (others : Rounds reader mid values rest) :
    Rounds reader input (a :: values) rest

theorem Rounds.length_le {reader : Reader σ ε α} {input rest : List σ} {values : List α}
    (rounds : reader.Rounds input values rest) : values.length + rest.length ≤ input.length := by
  induction rounds with
  | stop input => simp
  | round first others ih =>
    have less := reader.shrinks first
    rw [List.length_cons]
    omega

theorem Rounds.forall_mem {reader : Reader σ ε α} {p : α → Prop}
    (each : ∀ {input a rest}, reader.read input = .ok (a, rest) → p a)
    {input rest : List σ} {values : List α} (rounds : reader.Rounds input values rest) :
    ∀ a ∈ values, p a := by
  induction rounds with
  | stop input => exact nofun
  | round first others ih => exact List.forall_mem_cons.2 ⟨each first, ih⟩

/-- Reading everything ends in a round that leaves nothing, or before one that fails. -/
theorem exists_rounds (reader : Reader σ ε α) (input : List σ) :
    ∃ values rest, reader.Rounds input values rest ∧
      (rest = [] ∧ reader.readAll input = .ok values ∨
        ∃ e, rest ≠ [] ∧ reader.read rest = .error e ∧ reader.readAll input = .error e) := by
  fun_induction reader.readAll input with
  | case1 => exact ⟨[], [], .stop [], .inl ⟨rfl, rfl⟩⟩
  | case2 head tail e failed => exact ⟨[], _, .stop _, .inr ⟨e, by simp, failed, rfl⟩⟩
  | case3 head tail a mid first e more ih =>
    obtain ⟨values, rest, others, ⟨-, all⟩ | ⟨e', left, failed, all⟩⟩ := ih
    · rw [more] at all
      cases all
    · rw [more] at all
      cases all
      exact ⟨a :: values, rest, .round first others, .inr ⟨e, left, failed, rfl⟩⟩
  | case4 head tail a mid first values more ih =>
    obtain ⟨values', rest, others, ⟨rfl, all⟩ | ⟨e', left, failed, all⟩⟩ := ih
    · rw [more] at all
      cases all
      exact ⟨a :: values, [], .round first others, .inl ⟨rfl, rfl⟩⟩
    · rw [more] at all
      cases all

theorem readAll_eq_ok_iff {reader : Reader σ ε α} {input : List σ} {values : List α} :
    reader.readAll input = .ok values ↔ reader.Rounds input values [] := by
  constructor
  · intro all
    obtain ⟨found, rest, rounds, ⟨rfl, same⟩ | ⟨e, -, -, failed⟩⟩ := reader.exists_rounds input
    · rw [all] at same
      cases same
      exact rounds
    · rw [all] at failed
      cases failed
  · generalize left : ([] : List σ) = rest
    intro rounds
    induction rounds with
    | stop input => rw [← left, readAll_nil]
    | @round input mid rest a values first others ih =>
      obtain ⟨head, tail, rfl⟩ : ∃ head tail, input = head :: tail :=
        List.exists_cons_of_length_pos (Nat.zero_lt_of_lt (reader.shrinks first))
      rw [readAll]
      split <;> simp_all

section Written

variable {reader : Reader σ ε α} {encode : α → List σ}

theorem length_le_flatMap (encode : α → List σ) {items : List α} {a : α} (mem : a ∈ items) :
    (encode a).length ≤ (items.flatMap encode).length := by
  rw [List.flatMap_def]
  exact (List.sublist_flatten_of_mem (List.mem_map_of_mem mem)).length_le

theorem rounds_flatMap {normal : α → α} {items : List α}
    (reads : ∀ a ∈ items, ∀ rest, reader.read (encode a ++ rest) = .ok (normal a, rest))
    (rest : List σ) : reader.Rounds (items.flatMap encode ++ rest) (items.map normal) rest := by
  induction items with
  | nil => exact .stop rest
  | cons a items ih =>
    rw [List.flatMap_cons, List.append_assoc, List.map_cons]
    exact .round (reads a List.mem_cons_self _)
      (ih fun b mem => reads b (List.mem_cons_of_mem a mem))

theorem Rounds.eq_flatMap
    (written : ∀ {input a rest}, reader.read input = .ok (a, rest) → input = encode a ++ rest)
    {input rest : List σ} {values : List α} (rounds : reader.Rounds input values rest) :
    input = values.flatMap encode ++ rest := by
  induction rounds with
  | stop input => rfl
  | round first others ih =>
    rw [written first, ih, List.flatMap_cons, List.append_assoc]

end Written

end Reader

end TxEnvelope
