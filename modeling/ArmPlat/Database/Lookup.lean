import ArmPlat.Database.Node
/-!
# `Database.lookup`

The resolver, as `Database.lookup` computes it: `subPlat` on the key, the
walk that assimilates every dict it enters into the aggregate `d` and
follows `#{...}` cross-references, and then, for a string, the `{key}`
check, the literals `null` and `true`, `@` substitution over the whole
string, the brace count, and the `while "{" in item` loop with its retry
through `dblu`.

Every nested lookup and every pass of the loop spends one unit of fuel,
so `lookup` is structurally recursive and a run that Python would not end
is one that no fuel completes. The body of the loop is a parameter of
`lookupWith`: `lookup` is `lookupWith substPass`, and the same lookup with
the retry cut out of the pass, `lookupWith directPass`, is what the retry
is measured against.
-/

namespace ArmPlat

namespace Database

open Py

/-- `subPlat(k)` inside `lookup(key, plat)`. -/
def subPlat (key : List Char) (plat : Option (List Char)) (k : List Char) :
    Except Fault (List Char) :=
  if '@' ∈ k then
    match plat with
    | some p => .ok (replace k ['@'] p)
    | none => .error (.abort (.invalidContext key plat))
  else .ok k

/-- The cross-reference test of the walk: a string that starts with `#` and
holds one `{` and one `}` names the key `item[l+1:r]`. -/
def crossRef? (item : List Char) : Option (List Char) :=
  if startswith item ['#'] ∧ item.count '{' = item.count '}' ∧ item.count '}' = 1 then
    some (slice item (find item '{' + 1) (find item '}'))
  else none

/-- A value met at a segment, once the cross-reference test has run;
`nested` is `Database(d).lookup(·, plat)`. -/
def resolveRef (nested : List Char → Except Fault Value) : Node → Except Fault Value
  | .str s =>
    match crossRef? s with
    | some x => nested x
    | none => .ok (.node (.str s))
  | n => .ok (.node n)

/-- The `for k in subPlat(key).split(".")` loop, over `lookupLvl`, `d` and
`item`; it answers the aggregate the walk ends with, and `item`. -/
def walk (nested : Agg → List Char → Except Fault Value) :
    Agg → Agg → Value → List (List Char) → Except Fault (Agg × Value)
  | _, d, item, [] => .ok (d, item)
  | lvl, d, _, k :: ks =>
    match lvl k <|> d k with
    | none => .ok (d, .none)
    | some n =>
      resolveRef (nested d) n >>= fun
        | .node (.dict kvs) => walk nested (Agg.ofDict kvs) (d.assimilate kvs) (.node (.dict kvs)) ks
        | item => walk nested lvl d item ks

/-- `(search, replace)` of a pass: `item[l+1:r]` and `item[l:r+1]` for the
first `{` at `l` and the first `}` at `r`. -/
def token (item : List Char) : List Char × List Char :=
  (slice item (find item '{' + 1) (find item '}'), slice item (find item '{') (find item '}' + 1))

/-- `item.replace(replace, sub)`, which raises `TypeError` unless `sub` is a
`str`. -/
def replaceWith (item rep : List Char) : Value → Except Fault (List Char)
  | .node (.str sub) => .ok (replace item rep sub)
  | _ => .error .typeError

/-- One pass of `while "{" in item`: `inD` is `Database(d).lookup(·, plat)`
and `inRoot` is `dblu(·, plat)`, which is tried when the first replacement
leaves `item` as it was. -/
def substPass (inD inRoot : List Char → Except Fault Value) (item : List Char) :
    Except Fault (List Char) :=
  inD (token item).1 >>= replaceWith item (token item).2 >>= fun item' =>
    if item' = item then
      inRoot (token item).1 >>= replaceWith item (token item).2 >>= fun item'' =>
        if item'' = item then .error (.abort .nonTerminatingReference) else .ok item''
    else .ok item'

/-- The pass with the retry through the root cut out. -/
def directPass (inD _inRoot : List Char → Except Fault Value) (item : List Char) :
    Except Fault (List Char) :=
  inD (token item).1 >>= replaceWith item (token item).2

/-- `while "{" in item`, for at most `fuel` passes. -/
def substitute (pass : List Char → Except Fault (List Char)) :
    Nat → List Char → Except Fault (List Char)
  | 0, item => if '{' ∈ item then .error .outOfFuel else .ok item
  | n + 1, item => if '{' ∈ item then pass item >>= substitute pass n else .ok item

/-- What `lookup` does with the item the walk ends at: a string is checked
against `"{key}"`, read as `None` or `True` when it is `null` or `true`,
and otherwise `@`-substituted, brace-counted and run through the loop. -/
def finish (loop : List Char → Except Fault (List Char)) (key : List Char)
    (plat : Option (List Char)) : Value → Except Fault Value
  | .node (.str s) =>
    if '{' :: key ++ ['}'] = s then .error (.abort .selfReference)
    else if s = "null".toList then .ok .none
    else if s = "true".toList then .ok .true
    else subPlat key plat s >>= fun s =>
      if s.count '{' = s.count '}' then (fun s => .node (.str s)) <$> loop s
      else .error (.abort (.malformedReference key plat s))
  | item => .ok item

/-- `if item is None and not noneAllowed`. -/
def checkNone (key : List Char) (plat : Option (List Char)) (noneAllowed : Bool) :
    Value → Except Fault Value
  | .none => if noneAllowed then .ok .none else .error (.abort (.notFound key plat))
  | item => .ok item

/-- The body of a substitution pass, given the two lookups it may call. -/
abbrev Pass :=
  (List Char → Except Fault Value) → (List Char → Except Fault Value) → List Char →
    Except Fault (List Char)

/-- `Database.lookup` on `self`, with `root` the dict `dblu` reads, over the
body of its substitution loop. -/
def lookupWith (pass : Pass) (root : List (List Char × Node)) :
    Nat → Agg → List Char → Option (List Char) → Bool → Except Fault Value
  | 0, _, _, _, _ => .error .outOfFuel
  | n + 1, self, key, plat, noneAllowed =>
    let nested := fun d k => lookupWith pass root n d k plat false
    (subPlat key plat key >>= fun path => walk nested self self .none (path.splitOn '.')) >>=
    fun (d, item) =>
    finish (substitute (pass (nested d) (nested (Agg.ofDict root))) n) key plat item >>=
    checkNone key plat noneAllowed

/-- `Database.lookup`. -/
def lookup : List (List Char × Node) → Nat → Agg → List Char → Option (List Char) → Bool →
    Except Fault Value :=
  lookupWith substPass

/-- `dblu(key, plat, noneAllowed)`: the lookup on `ARMPLATDB`. -/
def dblu (root : List (List Char × Node)) (fuel : Nat) (key : List Char)
    (plat : Option (List Char)) (noneAllowed : Bool) : Except Fault Value :=
  lookup root fuel (Agg.ofDict root) key plat noneAllowed

/-- `Database.multilookup`: `root + "." + k` for each key, in order. -/
def multilookup (root : List (List Char × Node)) (fuel : Nat) (self : Agg)
    (rootKey : List Char) (keys : List (List Char)) (plat : Option (List Char))
    (noneAllowed : Bool) : Except Fault (List Value) :=
  keys.mapM fun k => lookup root fuel self (rootKey ++ '.' :: k) plat noneAllowed

/-- `dblum(root, keys, plat, noneAllowed)`. -/
def dblum (db : List (List Char × Node)) (fuel : Nat) (rootKey : List Char)
    (keys : List (List Char)) (plat : Option (List Char)) (noneAllowed : Bool) :
    Except Fault (List Value) :=
  multilookup db fuel (Agg.ofDict db) rootKey keys plat noneAllowed

/-- The walk of `lookup(key, plat)` on `self`, its nested lookups given
`fuel`. -/
def walkOf (pass : Pass) (root : List (List Char × Node)) (fuel : Nat) (self : Agg)
    (key : List Char) (plat : Option (List Char)) : Except Fault (Agg × Value) :=
  subPlat key plat key >>= fun path =>
    walk (fun d k => lookupWith pass root fuel d k plat false) self self .none (path.splitOn '.')

/-! ## Unfolding -/

section Unfold

variable {pass : Pass} {root : List (List Char × Node)}

@[simp] theorem lookupWith_zero (self : Agg) (key : List Char) (plat : Option (List Char))
    (noneAllowed : Bool) : lookupWith pass root 0 self key plat noneAllowed = .error .outOfFuel :=
  rfl

/-- **The equation of a lookup**: walk, finish the item with the loop
against the aggregate the walk ends with, check for `None`. -/
theorem lookupWith_succ (n : Nat) (self : Agg) (key : List Char) (plat : Option (List Char))
    (noneAllowed : Bool) :
    lookupWith pass root (n + 1) self key plat noneAllowed =
      (walkOf pass root n self key plat >>= fun (d, item) =>
        finish (substitute (pass (fun k => lookupWith pass root n d k plat false)
            (fun k => lookupWith pass root n (Agg.ofDict root) k plat false)) n) key plat item >>=
        checkNone key plat noneAllowed) :=
  rfl

/-- A lookup whose walk ends at `(d, item)` finishes `item` against `d`. -/
theorem lookupWith_of_walk {n : Nat} {self d : Agg} {key : List Char} {plat : Option (List Char)}
    {noneAllowed : Bool} {item : Value} (h : walkOf pass root n self key plat = .ok (d, item)) :
    lookupWith pass root (n + 1) self key plat noneAllowed =
      finish (substitute (pass (fun k => lookupWith pass root n d k plat false)
          (fun k => lookupWith pass root n (Agg.ofDict root) k plat false)) n) key plat item >>=
        checkNone key plat noneAllowed := by
  rw [lookupWith_succ, h]
  rfl

end Unfold

@[simp] theorem ok_bind {α β : Type} (a : α) (f : α → Except Fault β) :
    (Except.ok a >>= f) = f a := rfl

@[simp] theorem error_bind {α β : Type} (e : Fault) (f : α → Except Fault β) :
    (Except.error e >>= f) = .error e := rfl

theorem bind_eq_ok {α β : Type} {x : Except Fault α} {f : α → Except Fault β} {b : β} :
    (x >>= f) = .ok b ↔ ∃ a, x = .ok a ∧ f a = .ok b := by
  cases x <;> simp [bind, Except.bind]

theorem map_eq_ok {α β : Type} {x : Except Fault α} {f : α → β} {b : β} :
    (f <$> x) = .ok b ↔ ∃ a, x = .ok a ∧ f a = b := by
  cases x <;> simp [Functor.map, Except.map]

theorem bind_congr_ok {α β : Type} {x : Except Fault α} {f g : α → Except Fault β}
    (h : ∀ a, x = .ok a → f a = g a) : x >>= f = x >>= g := by
  cases x with
  | error e => rfl
  | ok a => exact h a rfl

theorem checkNone_eq_ok {key : List Char} {plat : Option (List Char)} {noneAllowed : Bool}
    {v w : Value} (h : checkNone key plat noneAllowed v = .ok w) : w = v := by
  cases v <;> simp only [checkNone, Except.ok.injEq] at h
  case none => split at h <;> simp_all
  all_goals exact h.symm

@[simp] theorem walk_nil (nested : Agg → List Char → Except Fault Value) (lvl d : Agg)
    (item : Value) : walk nested lvl d item [] = .ok (d, item) := rfl

theorem walk_cons (nested : Agg → List Char → Except Fault Value) (lvl d : Agg) (item : Value)
    (k : List Char) (ks : List (List Char)) :
    walk nested lvl d item (k :: ks) =
      match lvl k <|> d k with
      | none => .ok (d, .none)
      | some n =>
        resolveRef (nested d) n >>= fun
          | .node (.dict kvs) =>
            walk nested (Agg.ofDict kvs) (d.assimilate kvs) (.node (.dict kvs)) ks
          | item => walk nested lvl d item ks :=
  rfl

/-- A string past the three checks before `subPlat`. -/
theorem finish_str {loop : List Char → Except Fault (List Char)} {key s : List Char}
    {plat : Option (List Char)} (hkey : '{' :: key ++ ['}'] ≠ s) (hnull : s ≠ "null".toList)
    (htrue : s ≠ "true".toList) :
    finish loop key plat (.node (.str s)) = subPlat key plat s >>= fun s =>
      if s.count '{' = s.count '}' then (fun s => Value.node (.str s)) <$> loop s
      else .error (.abort (.malformedReference key plat s)) := by
  simp only [finish, if_neg hkey, if_neg hnull, if_neg htrue]

/-- A segment that names a dict enters it. -/
theorem walk_cons_dict {nested : Agg → List Char → Except Fault Value} {lvl d : Agg} {item : Value}
    {k : List Char} {ks : List (List Char)} {kvs : List (List Char × Node)}
    (h : (lvl k <|> d k) = some (.dict kvs)) :
    walk nested lvl d item (k :: ks) =
      walk nested (Agg.ofDict kvs) (d.assimilate kvs) (.node (.dict kvs)) ks := by
  rw [walk_cons, h]
  rfl

/-- A last segment that names a string other than a cross-reference ends
the walk there. -/
theorem walk_last_str {nested : Agg → List Char → Except Fault Value} {lvl d : Agg} {item : Value}
    {k s : List Char} (h : (lvl k <|> d k) = some (.str s)) (hs : crossRef? s = none) :
    walk nested lvl d item [k] = .ok (d, .node (.str s)) := by
  rw [walk_cons, h]
  simp only [resolveRef, hs, ok_bind]
  rfl

theorem substitute_succ (pass : List Char → Except Fault (List Char)) (n : Nat)
    (item : List Char) :
    substitute pass (n + 1) item =
      if '{' ∈ item then pass item >>= substitute pass n else .ok item :=
  rfl

end Database

end ArmPlat
