import ArmPlat.Database.Fuel
/-!
# Cyclic references

`lookup` has two guards against a reference to itself. The walk of `key`
ending at the very string `"{key}"`, compared before `@` is substituted,
aborts at once (`lookup_selfReference`); a pass that changes nothing is
retried through `dblu`. Neither sees a cycle that grows the string or
passes through an alias or the context: the lookup of `a` recurses without
end when `a` holds `x{a}` (`dblu_cycleDoc`), the alias `#{a}`
(`dblu_aliasDoc`), or `{@}` under the context `a` (`dblu_contextDoc`).

The shipped database has such a cycle. `fs.android.bfs.commit` is
`{@.android.commit}`; under the SGM-775 context its token walks to
`p.fvp.sg.m.775.android`, which has no `commit`, and inherits the same
template from the aggregate the outer walk built (`dblu_androidDoc`).
-/

namespace ArmPlat

namespace Database

/-! ## The guard, and three small cycles it misses -/

/-- **The self-reference guard**: a walk that ends at `"{key}"` aborts. -/
theorem lookup_selfReference {root : List (List Char × Node)} {self : Agg} {key : List Char}
    {plat : Option (List Char)} {noneAllowed : Bool} {n : Nat} {d : Agg}
    (h : walkOf substPass root n self key plat = .ok (d, .node (.str ('{' :: key ++ ['}'])))) :
    lookup root (n + 1) self key plat noneAllowed = .error (.abort .selfReference) := by
  rw [lookup, lookupWith_succ, h]
  simp [finish]

/-- `a` holds a template that names `a`. -/
def cycleDoc : List (List Char × Node) :=
  [(['a'], .str ['x', '{', 'a', '}'])]

/-- `a` is an alias of itself. -/
def aliasDoc : List (List Char × Node) :=
  [(['a'], .str ['#', '{', 'a', '}'])]

/-- `a` holds a template that names `a` once `@` is the context `a`. -/
def contextDoc : List (List Char × Node) :=
  [(['a'], .str ['{', '@', '}'])]

/-- Each lookup of `a` in `cycleDoc` runs out: the pass it reaches looks
`a` up again with one unit less. -/
theorem dblu_cycleDoc :
    ∀ (n : Nat) (plat : Option (List Char)) (noneAllowed : Bool),
      dblu cycleDoc n ['a'] plat noneAllowed = .error .outOfFuel
  | 0, _, _ => rfl
  | 1, _, _ => rfl
  | n + 2, plat, noneAllowed => by
    have ih := dblu_cycleDoc (n + 1) plat false
    obtain ⟨k₁, k₂, k₃, k₄, h⟩ : ∃ (k₁ : Value → Except Fault (List Char))
        (k₂ k₃ : List Char → Except Fault (List Char)) (k₄ : Value → Except Fault Value),
        dblu cycleDoc (n + 2) ['a'] plat noneAllowed =
          ((fun s => Value.node (.str s)) <$> (((dblu cycleDoc (n + 1) ['a'] plat false >>= k₁) >>=
            k₂) >>= k₃)) >>= k₄ := ⟨_, _, _, _, rfl⟩
    rw [h, ih]
    rfl

/-- The alias is followed during the walk, into the same lookup. -/
theorem dblu_aliasDoc :
    ∀ (n : Nat) (plat : Option (List Char)) (noneAllowed : Bool),
      dblu aliasDoc n ['a'] plat noneAllowed = .error .outOfFuel
  | 0, _, _ => rfl
  | n + 1, plat, noneAllowed => by
    have ih := dblu_aliasDoc n plat false
    obtain ⟨k₁, k₂, h⟩ : ∃ (k₁ : Value → Except Fault (Agg × Value))
        (k₂ : Agg × Value → Except Fault Value),
        dblu aliasDoc (n + 1) ['a'] plat noneAllowed =
          (dblu aliasDoc n ['a'] plat false >>= k₁) >>= k₂ := ⟨_, _, rfl⟩
    rw [h, ih]
    rfl

/-- `{@}` is not `{a}` when the guard compares, and is once `@` is `a`. -/
theorem dblu_contextDoc :
    ∀ (n : Nat) (noneAllowed : Bool),
      dblu contextDoc n ['a'] (some ['a']) noneAllowed = .error .outOfFuel
  | 0, _ => rfl
  | 1, _ => rfl
  | n + 2, noneAllowed => by
    have ih := dblu_contextDoc (n + 1) false
    obtain ⟨k₁, k₂, k₃, k₄, h⟩ : ∃ (k₁ : Value → Except Fault (List Char))
        (k₂ k₃ : List Char → Except Fault (List Char)) (k₄ : Value → Except Fault Value),
        dblu contextDoc (n + 2) ['a'] (some ['a']) noneAllowed =
          ((fun s => Value.node (.str s)) <$> (((dblu contextDoc (n + 1) ['a'] (some ['a']) false >>=
            k₁) >>= k₂) >>= k₃)) >>= k₄ := ⟨_, _, _, _, rfl⟩
    rw [h, ih]
    rfl

/-! ## A cycle through inheritance, in the shipped database -/

/-- The dict `p.fvp.sg.m.775.android` of `ARMPLATDB`. -/
def sgm775Android : List (List Char × Node) :=
  [("rel".toList, .str "(built from source)".toList), ("codename".toList, .str "Oreo".toList)]

/-- The dict `p` of `ARMPLATDB`, on the path to SGM-775. -/
def androidPlat : List (List Char × Node) :=
  [("fvp".toList, .dict [("sg".toList, .dict [("m".toList,
      .dict [("775".toList, .dict [("android".toList, .dict sgm775Android)])])])])]

/-- The entries of `ARMPLATDB` on the paths `fs.android.bfs.commit` and
`p.fvp.sg.m.775.android`. -/
def androidDoc : List (List Char × Node) :=
  [("fs".toList, .dict [("android".toList, .dict [("commit".toList, .str "null".toList),
      ("bfs".toList, .dict [("commit".toList, .str "\x7b@.android.commit\x7d".toList)])])]),
   ("p".toList, .dict androidPlat)]

/-- The walk of `p.fvp.sg.m.775.android.commit` from an aggregate that
inherits the template as `commit`: `775.android` has no `commit`, so the
walk ends at the inherited template, and the aggregate it ends with still
inherits it. -/
theorem androidCommit_walk {n : Nat} {d : Agg}
    (hc : d "commit".toList = some (.str "\x7b@.android.commit\x7d".toList))
    (hp : d "p".toList = some (.dict androidPlat)) :
    ∃ d', walkOf substPass androidDoc n d "p.fvp.sg.m.775.android.commit".toList
        (some "p.fvp.sg.m.775".toList) = .ok (d', .node (.str "\x7b@.android.commit\x7d".toList)) ∧
      d' "commit".toList = some (.str "\x7b@.android.commit\x7d".toList) ∧
      d' "p".toList = some (.dict androidPlat) := by
  have hT : crossRef? "\x7b@.android.commit\x7d".toList = none := rfl
  apply Exists.intro
  refine ⟨?_, ?_, ?_⟩
  · rw [walkOf, show subPlat "p.fvp.sg.m.775.android.commit".toList (some "p.fvp.sg.m.775".toList)
        "p.fvp.sg.m.775.android.commit".toList = .ok "p.fvp.sg.m.775.android.commit".toList from rfl,
      ok_bind, show "p.fvp.sg.m.775.android.commit".toList.splitOn '.' = ["p".toList, "fvp".toList,
        "sg".toList, "m".toList, "775".toList, "android".toList, "commit".toList] from rfl,
      walk_cons_dict (by rw [hp]; rfl), walk_cons_dict rfl, walk_cons_dict rfl,
      walk_cons_dict rfl, walk_cons_dict rfl, walk_cons_dict rfl,
      walk_last_str ((rfl : _ = d "commit".toList).trans hc) hT]
  · exact hc
  · exact hp

/-- Under the context `p.fvp.sg.m.775`, the template `{@.android.commit}`
is the token `p.fvp.sg.m.775.android.commit`, so a pass over it fails as
that token's lookup does. -/
theorem finish_androidTemplate {L G : List Char → Except Fault Value} {key : List Char} (n : Nat)
    (hkey : '{' :: key ++ ['}'] ≠ "\x7b@.android.commit\x7d".toList)
    (hL : L "p.fvp.sg.m.775.android.commit".toList = .error .outOfFuel) :
    finish (substitute (substPass L G) (n + 1)) key (some "p.fvp.sg.m.775".toList)
      (.node (.str "\x7b@.android.commit\x7d".toList)) = .error .outOfFuel := by
  rw [finish_str hkey (by decide) (by decide),
    show subPlat key (some "p.fvp.sg.m.775".toList) "\x7b@.android.commit\x7d".toList =
      .ok "\x7bp.fvp.sg.m.775.android.commit\x7d".toList from rfl,
    ok_bind, if_pos (by decide), substitute_succ, if_pos (by decide)]
  simp only [substPass, show token "\x7bp.fvp.sg.m.775.android.commit\x7d".toList =
    ("p.fvp.sg.m.775.android.commit".toList, "\x7bp.fvp.sg.m.775.android.commit\x7d".toList) from rfl,
    hL]
  rfl

/-- Each lookup of the token `p.fvp.sg.m.775.android.commit` from such an
aggregate runs out: it walks to the inherited template, which names the
token again. -/
theorem androidCommit_lookup : ∀ (n : Nat) (d : Agg),
    d "commit".toList = some (.str "\x7b@.android.commit\x7d".toList) →
    d "p".toList = some (.dict androidPlat) →
    lookup androidDoc n d "p.fvp.sg.m.775.android.commit".toList (some "p.fvp.sg.m.775".toList) false =
      .error .outOfFuel
  | 0, _, _, _ => rfl
  | 1, d, hc, hp => by
    obtain ⟨d', hw, -, -⟩ := @androidCommit_walk 0 d hc hp
    rw [lookup, lookupWith_of_walk hw]
    rfl
  | n + 2, d, hc, hp => by
    obtain ⟨d', hw, hc', hp'⟩ := @androidCommit_walk (n + 1) d hc hp
    rw [lookup, lookupWith_of_walk hw, finish_androidTemplate n (by decide)
      (androidCommit_lookup (n + 1) d' hc' hp')]
    rfl

/-- **The shipped cycle.** `lookup("fs.android.bfs.commit", plat="p.fvp.sg.m.775")`
walks to `{@.android.commit}`, whose token walks through `775.android`,
which has no `commit`, back to the same template inherited from
`fs.android.bfs`: every lookup runs out. -/
theorem dblu_androidDoc : ∀ (n : Nat) (noneAllowed : Bool),
    dblu androidDoc n "fs.android.bfs.commit".toList (some "p.fvp.sg.m.775".toList) noneAllowed =
      .error .outOfFuel
  | 0, _ => rfl
  | 1, _ => rfl
  | n + 2, noneAllowed => by
    rw [dblu, lookup, lookupWith_of_walk (rfl : walkOf substPass androidDoc (n + 1) (Agg.ofDict androidDoc)
      "fs.android.bfs.commit".toList (some "p.fvp.sg.m.775".toList) = .ok (_, _)),
      finish_androidTemplate n (by decide) (androidCommit_lookup (n + 1) _ rfl rfl)]
    rfl

/-! ## Summary -/

/-- **Only the literal self-reference is caught.** A walk that ends at
`"{key}"` aborts, while `x{a}`, `#{a}`, and `{@}` under the context `a`,
each stored at `a`, make the lookup of `a` recurse without end whatever
`noneAllowed` is; so does the shipped `fs.android.bfs.commit` under the
SGM-775 context. -/
theorem cyclic_references :
    (∀ (root : List (List Char × Node)) (self : Agg) (key : List Char)
        (plat : Option (List Char)) (noneAllowed : Bool) (n : Nat) (d : Agg),
        walkOf substPass root n self key plat = .ok (d, .node (.str ('{' :: key ++ ['}']))) →
        lookup root (n + 1) self key plat noneAllowed = .error (.abort .selfReference)) ∧
    (∀ (n : Nat) (plat : Option (List Char)) (noneAllowed : Bool),
        dblu cycleDoc n ['a'] plat noneAllowed = .error .outOfFuel) ∧
    (∀ (n : Nat) (plat : Option (List Char)) (noneAllowed : Bool),
        dblu aliasDoc n ['a'] plat noneAllowed = .error .outOfFuel) ∧
    (∀ (n : Nat) (noneAllowed : Bool),
      dblu contextDoc n ['a'] (some ['a']) noneAllowed = .error .outOfFuel) ∧
    ∀ (n : Nat) (noneAllowed : Bool),
      dblu androidDoc n "fs.android.bfs.commit".toList (some "p.fvp.sg.m.775".toList) noneAllowed =
        .error .outOfFuel :=
  ⟨fun _ _ _ _ _ _ _ h => lookup_selfReference h, dblu_cycleDoc, dblu_aliasDoc, dblu_contextDoc,
    dblu_androidDoc⟩

end Database

end ArmPlat
