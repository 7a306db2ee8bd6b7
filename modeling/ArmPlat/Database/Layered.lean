import ArmPlat.Database.Fuel
/-!
# The aggregate is a chain of layers

`lookup` copies the root into `d` and overwrites `d` with the keys of each
dict it enters; it reads a segment first at the current level and then in
`d`, and runs every nested lookup against `Database(d)`. The design this
implements keeps the chain of entered dicts, innermost first and the root
last, and reads each segment in the nearest dict of the chain that holds
it (`layeredLookup`, written from that description, with the rest of the
lookup shared).

They agree at every fuel, so on every outcome (`dblu_eq_layeredLookup`).
Two facts carry it: `assimilate` on the flattening of a chain is the
flattening of the chain with one more layer (`assimilate_get`), and the
current level never disagrees with `d` (`LevelIn`), so reading the level
first changes nothing.
-/

namespace ArmPlat

namespace Database

/-- The dicts a layered resolver has entered, innermost first, the root
last. -/
abbrev Chain := List (List (List Char × Node))

/-- A key's value in the nearest layer that holds it. -/
def Chain.get (c : Chain) (k : List Char) : Option Node :=
  c.findSome? (·.lookup k)

/-- The layered walk: each segment is read in the chain, and a dict pushes
a layer; `nested` starts a lookup from a chain. -/
def layeredWalk (nested : Chain → List Char → Except Fault Value) :
    Chain → Value → List (List Char) → Except Fault (Chain × Value)
  | c, item, [] => .ok (c, item)
  | c, _, k :: ks =>
    match c.get k with
    | none => .ok (c, .none)
    | some n =>
      resolveRef (nested c) n >>= fun
        | .node (.dict kvs) => layeredWalk nested (kvs :: c) (.node (.dict kvs)) ks
        | item => layeredWalk nested c item ks

/-- The layered resolver: every nested lookup, of a cross-reference or of a
token, starts from the caller's chain, and the retry from the chain of the
root alone. -/
def layeredLookupWith (pass : Pass) (root : List (List Char × Node)) :
    Nat → Chain → List Char → Option (List Char) → Bool → Except Fault Value
  | 0, _, _, _, _ => .error .outOfFuel
  | n + 1, c, key, plat, noneAllowed =>
    let nested := fun c k => layeredLookupWith pass root n c k plat false
    (subPlat key plat key >>= fun path => layeredWalk nested c .none (path.splitOn '.')) >>=
    fun (c', item) =>
    finish (substitute (pass (nested c') (nested [root])) n) key plat item >>=
    checkNone key plat noneAllowed

/-- The layered resolver over the lookup's own pass. -/
def layeredLookup : List (List Char × Node) → Nat → Chain → List Char → Option (List Char) →
    Bool → Except Fault Value :=
  layeredLookupWith substPass

/-! ## Flattening -/

@[simp] theorem Chain.get_nil (k : List Char) : Chain.get [] k = none := rfl

@[simp] theorem Chain.get_cons (kvs : List (List Char × Node)) (c : Chain) (k : List Char) :
    Chain.get (kvs :: c) k = (kvs.lookup k <|> c.get k) := by
  simp only [Chain.get, List.findSome?_cons]
  cases kvs.lookup k <;> rfl

/-- **Assimilating a dict is pushing a layer.** -/
theorem assimilate_get (c : Chain) (kvs : List (List Char × Node)) :
    Agg.assimilate c.get kvs = Chain.get (kvs :: c) := by
  funext k
  simp

theorem ofDict_eq_get (root : List (List Char × Node)) : Agg.ofDict root = Chain.get [root] := by
  funext k
  simp only [Agg.ofDict_apply, Chain.get_cons, Chain.get_nil]
  cases root.lookup k <;> rfl

/-- The level the walk reads first holds nothing `d` does not. -/
def LevelIn (lvl d : Agg) : Prop :=
  ∀ k, (lvl k <|> d k) = d k

theorem levelIn_self (d : Agg) : LevelIn d d := by
  intro k
  cases d k <;> rfl

theorem levelIn_assimilate (d : Agg) (kvs : List (List Char × Node)) :
    LevelIn (Agg.ofDict kvs) (d.assimilate kvs) := by
  intro k
  simp only [Agg.ofDict_apply, Agg.assimilate_apply]
  cases kvs.lookup k <;> rfl

section Refine

variable {N : Agg → List Char → Except Fault Value} {N' : Chain → List Char → Except Fault Value}

/-- **The walk over `d` is the walk over the chain `d` flattens.** -/
theorem walk_eq_layeredWalk (hN : ∀ c, N (Chain.get c) = N' c) (ks : List (List Char)) :
    ∀ lvl c item, LevelIn lvl (Chain.get c) →
      walk N lvl (Chain.get c) item ks =
        (fun p => (Chain.get p.1, p.2)) <$> layeredWalk N' c item ks := by
  induction ks with
  | nil => exact fun _ _ _ _ => rfl
  | cons k ks ih =>
    intro lvl c item hlvl
    rw [walk_cons, layeredWalk, hlvl k, hN]
    cases c.get k with
    | none => rfl
    | some n =>
      simp only [map_bind]
      congr 1
      funext v
      rcases v with _ | _ | ⟨_ | _ | _ | kvs⟩
      case dict =>
        dsimp only
        rw [assimilate_get]
        exact ih _ _ _ (assimilate_get c kvs ▸ levelIn_assimilate _ kvs)
      all_goals exact ih _ _ _ hlvl

variable {pass : Pass} {root : List (List Char × Node)}

/-- **The lookup on a flattened chain is the layered lookup on the chain.** -/
theorem lookupWith_get (n : Nat) :
    ∀ c key plat noneAllowed, lookupWith pass root n (Chain.get c) key plat noneAllowed =
      layeredLookupWith pass root n c key plat noneAllowed := by
  induction n with
  | zero => exact fun _ _ _ _ => rfl
  | succ n ih =>
    intro c key plat noneAllowed
    have hN : ∀ c, (fun k => lookupWith pass root n (Chain.get c) k plat false) =
        fun k => layeredLookupWith pass root n c k plat false := fun c => funext fun k => ih c k _ _
    rw [lookupWith_succ, layeredLookupWith, walkOf]
    simp only [bind_assoc]
    congr 1
    funext path
    rw [walk_eq_layeredWalk hN _ _ _ _ (levelIn_self _), bind_map_left]
    congr 1
    funext p
    rw [ofDict_eq_get, hN, hN]

end Refine

/-- **`dblu` is the layered resolver started from the root.** -/
theorem dblu_eq_layeredLookup (root : List (List Char × Node)) (n : Nat) (key : List Char)
    (plat : Option (List Char)) (noneAllowed : Bool) :
    dblu root n key plat noneAllowed = layeredLookup root n [root] key plat noneAllowed := by
  rw [dblu, lookup, ofDict_eq_get]
  exact lookupWith_get n [root] key plat noneAllowed

end Database

end ArmPlat
