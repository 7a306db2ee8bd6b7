import ArmPlat.Database.Lookup
/-!
# Fuel, and what a lookup ends with

More fuel never changes what a lookup answers, once it answers anything
other than `.error .outOfFuel` (`lookupWith_fuel_mono`). So the outcome of
a lookup is well defined (`Outcome`): the answer every large enough fuel
gives, and it is unique (`Outcome.unique`).

`FuelLe a b` reads "`a` is `b`, unless `a` ran out first"; it is closed
under `>>=`, so each piece of the lookup is monotone in the lookups it
calls, and the walk, the loop and `finish` are proved so once.
-/

namespace ArmPlat

namespace Database

/-- `a` is `b`, unless `a` ran out of fuel first. -/
def FuelLe {α : Type} (a b : Except Fault α) : Prop :=
  a = .error .outOfFuel ∨ a = b

namespace FuelLe

variable {α β : Type} {a b c : Except Fault α}

theorem refl (a : Except Fault α) : FuelLe a a := .inr rfl

theorem trans (h : FuelLe a b) (k : FuelLe b c) : FuelLe a c := by
  rcases h with h | rfl
  · exact .inl h
  · exact k

theorem bind {f g : α → Except Fault β} (h : FuelLe a b) (k : ∀ x, FuelLe (f x) (g x)) :
    FuelLe (a >>= f) (b >>= g) := by
  rcases h with rfl | rfl
  · exact .inl rfl
  · cases a with
    | error e => exact .inr rfl
    | ok x => exact k x

theorem map {f : α → β} (h : FuelLe a b) : FuelLe (f <$> a) (f <$> b) := by
  rcases h with rfl | rfl
  · exact .inl rfl
  · exact .inr rfl

theorem mapM {γ : Type} {f g : γ → Except Fault α} :
    ∀ (l : List γ), (∀ x ∈ l, FuelLe (f x) (g x)) → FuelLe (l.mapM f) (l.mapM g)
  | [], _ => refl _
  | x :: l, h => by
    simp only [List.mapM_cons]
    exact (h x (List.mem_cons_self x l)).bind fun _ =>
      (mapM l fun z hz => h z (List.mem_cons_of_mem x hz)).bind fun _ => refl _

/-- An answer other than running out is the answer with more fuel. -/
theorem eq_of_ne (h : FuelLe a b) (ha : a ≠ .error .outOfFuel) : b = a :=
  (h.resolve_left ha).symm

end FuelLe

/-- A pass that answers what it answered whenever the lookups it calls
do. -/
def Pass.Mono (pass : Pass) : Prop :=
  ∀ ⦃L L' G G' : List Char → Except Fault Value⦄, (∀ x, FuelLe (L x) (L' x)) →
    (∀ x, FuelLe (G x) (G' x)) → ∀ item, FuelLe (pass L G item) (pass L' G' item)

theorem substPass_mono : Pass.Mono substPass := by
  intro L L' G G' hL hG item
  refine (FuelLe.bind (hL _) fun _ => .refl _).bind fun item' => ?_
  split
  · exact (FuelLe.bind (hG _) fun _ => .refl _).bind fun _ => .refl _
  · exact .refl _

section Mono

variable {N N' : Agg → List Char → Except Fault Value}

theorem resolveRef_mono {L L' : List Char → Except Fault Value} (h : ∀ x, FuelLe (L x) (L' x))
    (n : Node) : FuelLe (resolveRef L n) (resolveRef L' n) := by
  cases n with
  | str s =>
    simp only [resolveRef]
    split
    · exact h _
    · exact .refl _
  | _ => exact .refl _

theorem walk_mono (h : ∀ d x, FuelLe (N d x) (N' d x)) (ks : List (List Char)) :
    ∀ lvl d item, FuelLe (walk N lvl d item ks) (walk N' lvl d item ks) := by
  induction ks with
  | nil => exact fun _ _ _ => .refl _
  | cons k ks ih =>
    intro lvl d item
    rw [walk_cons, walk_cons]
    cases lvl k <|> d k with
    | none => exact .refl _
    | some n =>
      refine (resolveRef_mono (h d) n).bind fun v => ?_
      split <;> apply ih

theorem substitute_mono {P P' : List Char → Except Fault (List Char)}
    (h : ∀ x, FuelLe (P x) (P' x)) {m m' : Nat} (hm : m ≤ m') (item : List Char) :
    FuelLe (substitute P m item) (substitute P' m' item) := by
  induction m generalizing m' item with
  | zero =>
    by_cases hb : '{' ∈ item
    · exact .inl (by simp [substitute, hb])
    · cases m' <;> exact .inr (by simp [substitute, hb])
  | succ m ih =>
    obtain ⟨m', rfl⟩ : ∃ k, m' = k + 1 := ⟨m' - 1, by omega⟩
    rw [substitute_succ, substitute_succ]
    split
    · exact (h item).bind fun _ => ih (by omega) _
    · exact .refl _

theorem finish_mono {L L' : List Char → Except Fault (List Char)} (h : ∀ x, FuelLe (L x) (L' x))
    (key : List Char) (plat : Option (List Char)) (v : Value) :
    FuelLe (finish L key plat v) (finish L' key plat v) := by
  match v with
  | .node (.str s) =>
    simp only [finish]
    repeat' split
    all_goals first
      | exact .refl _
      | exact (FuelLe.refl _).bind fun _ => by split; exacts [(h _).map, .refl _]
  | .none | .true | .node (.int _) | .node (.list _) | .node (.dict _) => exact .refl _

variable {pass : Pass} {root : List (List Char × Node)}

/-- **More fuel never changes an answer.** -/
theorem lookupWith_fuel_mono (hpass : pass.Mono) {n m : Nat} (hnm : n ≤ m) (self : Agg)
    (key : List Char) (plat : Option (List Char)) (noneAllowed : Bool) :
    FuelLe (lookupWith pass root n self key plat noneAllowed)
      (lookupWith pass root m self key plat noneAllowed) := by
  induction n generalizing m self key plat noneAllowed with
  | zero => exact .inl rfl
  | succ n ih =>
    obtain ⟨m, rfl⟩ : ∃ k, m = k + 1 := ⟨m - 1, by omega⟩
    have hnest : ∀ d x, FuelLe (lookupWith pass root n d x plat false)
        (lookupWith pass root m d x plat false) := fun d x => ih (by omega) d x plat false
    rw [lookupWith_succ, lookupWith_succ]
    refine ((FuelLe.refl _).bind fun path => walk_mono hnest _ _ _ _).bind fun ⟨d, item⟩ => ?_
    exact (finish_mono (substitute_mono (hpass (hnest d) (hnest _)) (by omega)) _ _ _).bind
      fun _ => .refl _

theorem walkOf_fuel_mono (hpass : pass.Mono) {n m : Nat} (hnm : n ≤ m) (self : Agg)
    (key : List Char) (plat : Option (List Char)) :
    FuelLe (walkOf pass root n self key plat) (walkOf pass root m self key plat) :=
  (FuelLe.refl _).bind fun _ =>
    walk_mono (fun d x => lookupWith_fuel_mono hpass hnm d x plat false) _ _ _ _

/-- A walk that answers keeps its answer with more fuel. -/
theorem walkOf_eq_of_le (hpass : pass.Mono) {n m : Nat} (hnm : n ≤ m) {self : Agg}
    {key : List Char} {plat : Option (List Char)} {r : Agg × Value}
    (h : walkOf pass root n self key plat = .ok r) : walkOf pass root m self key plat = .ok r :=
  ((walkOf_fuel_mono hpass hnm self key plat).eq_of_ne (h ▸ fun h => by cases h)).trans h

end Mono

/-! ## Outcomes -/

section Outcome

variable {root : List (List Char × Node)} {self : Agg} {key : List Char}
  {plat : Option (List Char)} {noneAllowed : Bool}

/-- **What the lookup ends with**: the answer of every large enough fuel. It
is `.error .outOfFuel` exactly when Python's lookup does not end. -/
def Outcome (root : List (List Char × Node)) (self : Agg) (key : List Char)
    (plat : Option (List Char)) (noneAllowed : Bool) (r : Except Fault Value) : Prop :=
  ∃ n, ∀ m, n ≤ m → lookup root m self key plat noneAllowed = r

theorem lookup_fuel_mono {n m : Nat} (hnm : n ≤ m) :
    FuelLe (lookup root n self key plat noneAllowed) (lookup root m self key plat noneAllowed) :=
  lookupWith_fuel_mono substPass_mono hnm self key plat noneAllowed

/-- An answer at one fuel, other than running out, is the outcome. -/
theorem outcome_of_eq {n : Nat} {r : Except Fault Value}
    (h : lookup root n self key plat noneAllowed = r) (hr : r ≠ .error .outOfFuel) :
    Outcome root self key plat noneAllowed r :=
  ⟨n, fun _ hm => (lookup_fuel_mono hm).eq_of_ne (h ▸ hr) |>.trans h⟩

theorem Outcome.unique {r r' : Except Fault Value} (h : Outcome root self key plat noneAllowed r)
    (h' : Outcome root self key plat noneAllowed r') : r = r' := by
  obtain ⟨n, hn⟩ := h
  obtain ⟨n', hn'⟩ := h'
  rw [← hn (max n n') (le_max_left _ _), hn' (max n n') (le_max_right _ _)]

/-- Finitely many lookups share a fuel past which each gives its outcome. -/
theorem outcome_forall_mem {ks : List (List Char)} {r : List Char → Except Fault Value}
    (h : ∀ k ∈ ks, Outcome root self k plat noneAllowed (r k)) :
    ∃ N, ∀ m, N ≤ m → ∀ k ∈ ks, lookup root m self k plat noneAllowed = r k := by
  induction ks with
  | nil => exact ⟨0, fun _ _ _ hk => absurd hk (List.not_mem_nil _)⟩
  | cons k ks ih =>
    obtain ⟨n, hn⟩ := h k (List.mem_cons_self k ks)
    obtain ⟨N, hN⟩ := ih fun k' hk' => h k' (List.mem_cons_of_mem k hk')
    refine ⟨max n N, fun m hm k' hk' => ?_⟩
    rcases List.mem_cons.1 hk' with rfl | hk'
    · exact hn m ((Nat.le_max_left n N).trans hm)
    · exact hN m ((Nat.le_max_right n N).trans hm) k' hk'

end Outcome

end Database

end ArmPlat
