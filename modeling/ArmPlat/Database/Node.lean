import ArmPlat.Python.Str
/-!
# The database, and what a lookup hands back

`ARMPLATDB` is a Python dict literal whose values are strings, integers
(`priority`), lists and sets of strings, and nested dicts; `Node` is that
value space, with the set folded into `list` since the lookup treats both
as non-strings. A lookup answers `None`, `True` or one of these values, or
stops: through `script.abort` (one of the five `Abort` conditions), through
an uncaught `TypeError`, or, in this model, by exhausting its fuel where
Python would recurse or loop without end.

The lookup reads a `Database` only as a map from keys to values, so the
aggregate `d` it builds with `assimilate`, and the `Database(d)` a nested
lookup runs against, are an `Agg`.
-/

namespace ArmPlat

/-- A value of the database. -/
inductive Node where
  | str (s : List Char)
  | int (n : Int)
  | list (xs : List Node)
  | dict (kvs : List (List Char × Node))

/-- What `Database.lookup` returns: `None`, `True`, or a value of the
database. -/
inductive Value where
  | none
  | true
  | node (n : Node)

/-- Whether a value is a `str`. -/
def Value.isStr : Value → Bool
  | .node (.str _) => Bool.true
  | _ => Bool.false

/-- No dict in the value, at any depth, has the empty string as a key. -/
inductive Node.NoEmptyKey : Node → Prop
  | str (s : List Char) : Node.NoEmptyKey (.str s)
  | int (n : Int) : Node.NoEmptyKey (.int n)
  | list (xs : List Node) : (∀ x ∈ xs, Node.NoEmptyKey x) → Node.NoEmptyKey (.list xs)
  | dict (kvs : List (List Char × Node)) : (∀ kv ∈ kvs, kv.1 ≠ []) →
      (∀ kv ∈ kvs, Node.NoEmptyKey kv.2) → Node.NoEmptyKey (.dict kvs)

/-- A `Value` that is `None`, `True` or a value without an empty key. -/
def Value.NoEmptyKey (v : Value) : Prop :=
  ∀ n, v = .node n → n.NoEmptyKey

/-- A database as the lookup reads it: `k in d` and `d[k]`. -/
def Agg := List Char → Option Node

/-- An aggregate without the empty key, whose values have none either. -/
structure Agg.NoEmptyKey (d : Agg) : Prop where
  empty : d [] = none
  values : ∀ k n, d k = some n → n.NoEmptyKey

theorem mem_of_lookup_eq_some {kvs : List (List Char × Node)} {k : List Char} {n : Node}
    (h : kvs.lookup k = some n) : (k, n) ∈ kvs := by
  induction kvs with
  | nil => cases h
  | cons kv kvs ih =>
    obtain ⟨k', v⟩ := kv
    simp only [List.lookup_cons] at h
    split at h
    · simp_all
    · exact List.mem_cons_of_mem _ (ih h)

namespace Agg

/-- `Database(kvs)` of a dict of the database. -/
def ofDict (kvs : List (List Char × Node)) : Agg := fun k => kvs.lookup k

/-- `assimilate(src)`: `d.update({k: v})` for every item of `src`, so the
keys of `src` override those of `d`. -/
def assimilate (d : Agg) (src : List (List Char × Node)) : Agg := fun k => src.lookup k <|> d k

theorem noEmptyKey_ofDict {kvs : List (List Char × Node)} (h : (Node.dict kvs).NoEmptyKey) :
    (ofDict kvs).NoEmptyKey := by
  cases h with
  | dict _ hkeys hvals =>
    refine ⟨?_, fun k n hk => hvals _ (mem_of_lookup_eq_some hk)⟩
    cases hk : kvs.lookup [] with
    | none => exact hk
    | some n => exact absurd rfl (hkeys _ (mem_of_lookup_eq_some hk))

theorem noEmptyKey_assimilate {d : Agg} {kvs : List (List Char × Node)} (hd : d.NoEmptyKey)
    (h : (Node.dict kvs).NoEmptyKey) : (d.assimilate kvs).NoEmptyKey := by
  have hk := noEmptyKey_ofDict h
  refine ⟨by simp [assimilate, hd.empty, show kvs.lookup [] = none from hk.empty], fun k n hn => ?_⟩
  simp only [assimilate] at hn
  cases hl : kvs.lookup k with
  | none => rw [hl] at hn; exact hd.values k n hn
  | some m => rw [hl] at hn; cases hn; exact hk.values k _ hl

@[simp] theorem ofDict_apply (kvs : List (List Char × Node)) (k : List Char) :
    ofDict kvs k = kvs.lookup k := rfl

@[simp] theorem assimilate_apply (d : Agg) (src : List (List Char × Node)) (k : List Char) :
    d.assimilate src k = (src.lookup k <|> d k) := rfl

end Agg

/-- Python's `f"{plat}"`. -/
def showPlat : Option (List Char) → List Char
  | none => "None".toList
  | some p => p

/-- The conditions `lookup` reports through `script.abort`, each with what
its message reads. -/
inductive Abort where
  /-- `subPlat` met an `@` and no platform was given. -/
  | invalidContext (key : List Char) (plat : Option (List Char))
  /-- The walk ended at the string `"{key}"` ("recursive lookup 111"). -/
  | selfReference
  /-- Unequal numbers of `{` and `}` once `@` is substituted. -/
  | malformedReference (key : List Char) (plat : Option (List Char)) (item : List Char)
  /-- A pass changed nothing, against `d` and against the root ("recursive
  lookup"). -/
  | nonTerminatingReference
  /-- `None` with `noneAllowed` false. -/
  | notFound (key : List Char) (plat : Option (List Char))

/-- The text `script.abort` logs. The last piece of the imbalance message is
a plain string, so its `}}` stays doubled. -/
def Abort.message : Abort → List Char
  | .invalidContext key plat =>
    "lookup key=".toList ++ key ++ " with invalid plat=".toList ++ showPlat plat
  | .selfReference => "recursive lookup 111".toList
  | .malformedReference key plat item =>
    "lookup of key=".toList ++ key ++ " with plat=".toList ++ showPlat plat ++
      " gives item=".toList ++ item ++ " with imbalanced number of \x7b and \x7d\x7d".toList
  | .nonTerminatingReference => "recursive lookup".toList
  | .notFound key plat =>
    "lookup of ".toList ++ key ++ " (plat=".toList ++ showPlat plat ++
      ") returns None but noneAllowed is False".toList

/-- How a computation of the script stops without returning. -/
inductive Fault where
  /-- `script.abort`, which always exits for the lookup's calls (`hard`). -/
  | abort (e : Abort)
  /-- An uncaught `TypeError`. -/
  | typeError
  /-- An uncaught `AttributeError`. -/
  | attributeError
  /-- An uncaught `ValueError`. -/
  | valueError
  /-- The model's bound on recursion and iteration ran out. -/
  | outOfFuel

end ArmPlat
