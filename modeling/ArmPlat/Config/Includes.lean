import ArmPlat.Database.Fuel
/-!
# The included components — `config._add_includes`

`_add_includes(key)` looks up `key.includes` (with `noneAllowed`), and for
each component named there appends it to `config.swcs` and includes its
own includes in turn: a depth-first walk, with no record of what it has
seen.

The lookup inherits: the walk reads, for a dict without `includes`, the
`includes` of the level above (`walk_inherits`). So a component named in
its parent's `includes` names itself, unless it overrides the key, and the
walk never ends (`includes_inherited`). The shipped `fw.edkii` includes
`fw.edkii.platforms`, which sets `includes` to `null` for that reason;
without it, choosing the EDK II firmware would recurse without end
(`edkii_includes`).
-/

namespace ArmPlat

namespace Config

open Database

/-- `if swcs: for swc in swcs`: the items a Python `for` visits in the
value of the lookup, none when it is falsy. -/
def iterItems : Value → Except Fault (List Value)
  | .none => .ok []
  | .true => .error .typeError
  | .node (.str s) => .ok (s.map fun c => .node (.str [c]))
  | .node (.int n) => if n = 0 then .ok [] else .error .typeError
  | .node (.list xs) => .ok (xs.map .node)
  | .node (.dict kvs) => .ok (kvs.map fun kv => .node (.str kv.1))

/-- `config._add_includes(key)`, within `fuel` levels: the components it
appends to `config.swcs`, in order. `look k noneAllowed` is `dblu(k,
config.p.meta, noneAllowed)`; a component that is not a string raises
`TypeError` at `swc+".includes"`. -/
def addIncludes (look : List Char → Bool → Except Fault Value) :
    Nat → List Char → Except Fault (List (List Char))
  | 0, _ => .error .outOfFuel
  | n + 1, key =>
    (look (key ++ ".includes".toList) true >>= iterItems) >>= fun swcs =>
      List.flatten <$> swcs.mapM fun swc =>
        match swc with
        | .node (.str s) => (s :: ·) <$> addIncludes look n s
        | _ => .error .typeError

section Walk

variable {look : List Char → Bool → Except Fault Value}

theorem addIncludes_succ (n : Nat) (key : List Char) :
    addIncludes look (n + 1) key =
      (look (key ++ ".includes".toList) true >>= iterItems) >>= fun swcs =>
        List.flatten <$> swcs.mapM fun swc =>
          match swc with
          | .node (.str s) => (s :: ·) <$> addIncludes look n s
          | _ => .error .typeError :=
  rfl

/-- **A component that includes itself first is walked without end.** -/
theorem addIncludes_self {key : List Char} {v : Value} {rest : List Value}
    (hlook : look (key ++ ".includes".toList) true = .ok v)
    (hv : iterItems v = .ok (.node (.str key) :: rest)) :
    ∀ n, addIncludes look n key = .error .outOfFuel
  | 0 => rfl
  | n + 1 => by
    rw [addIncludes_succ, hlook, ok_bind, hv, ok_bind, List.mapM_cons]
    simp only [addIncludes_self hlook hv n]
    rfl

end Walk

/-! ## Inherited includes -/

/-- Entering the dict `c` from the level of its parent's dict `pkvs`, the
walk reads, for a key `k` that `c` lacks, what the parent's level reads. -/
theorem walk_inherits {nested : Agg → List Char → Except Fault Value}
    {pkvs ckvs : List (List Char × Node)} {d₀ : Agg} {item : Value} {c k : List Char}
    (hc : pkvs.lookup c = some (.dict ckvs)) (hk : ckvs.lookup k = none)
    (hv : ∀ s, (Agg.ofDict pkvs k <|> d₀.assimilate pkvs k) ≠ some (.str s)) :
    Prod.snd <$> walk nested (.ofDict pkvs) (d₀.assimilate pkvs) item [c, k] =
      Prod.snd <$> walk nested (.ofDict pkvs) (d₀.assimilate pkvs) item [k] := by
  have hcd : (Agg.ofDict pkvs c <|> d₀.assimilate pkvs c) = some (.dict ckvs) := by
    rw [Agg.ofDict_apply, hc]
    rfl
  have hread : (Agg.ofDict ckvs k <|> (d₀.assimilate pkvs).assimilate ckvs k) =
      (Agg.ofDict pkvs k <|> d₀.assimilate pkvs k) := by
    simp only [Agg.ofDict_apply, Agg.assimilate_apply, hk, Option.none_orElse]
    rcases pkvs.lookup k with _ | x <;> rfl
  rw [walk_cons_dict hcd, walk_cons, walk_cons, hread]
  rcases hn : (Agg.ofDict pkvs k <|> d₀.assimilate pkvs k) with _ | n
  · rfl
  · rcases n with s | _ | _ | kvs
    · exact absurd hn (hv s)
    all_goals rfl

/-- **An inherited `includes` that names the component is walked without
end.** The walk of a lookup reads, for a dict that lacks `includes`, the
`includes` of the level above: a component without its own inherits its
parent's. And `_add_includes` of a component whose `includes` name itself
first never ends, at any fuel. -/
theorem includes_inherited {nested : Agg → List Char → Except Fault Value}
    {pkvs ckvs : List (List Char × Node)} {d₀ : Agg} {item : Value} {c : List Char}
    (hc : pkvs.lookup c = some (.dict ckvs)) (hk : ckvs.lookup "includes".toList = none)
    (hv : ∀ s, (Agg.ofDict pkvs "includes".toList <|> d₀.assimilate pkvs "includes".toList) ≠
      some (.str s))
    {look : List Char → Bool → Except Fault Value} {key : List Char} {v : Value} {rest : List Value}
    (hlook : look (key ++ ".includes".toList) true = .ok v)
    (hself : iterItems v = .ok (.node (.str key) :: rest)) :
    Prod.snd <$> walk nested (.ofDict pkvs) (d₀.assimilate pkvs) item [c, "includes".toList] =
      Prod.snd <$> walk nested (.ofDict pkvs) (d₀.assimilate pkvs) item ["includes".toList] ∧
    ∀ n, addIncludes look n key = .error .outOfFuel :=
  ⟨walk_inherits hc hk hv, addIncludes_self hlook hself⟩

/-! ## `fw.edkii` in the shipped database -/

/-- The dict `fw.edkii.platforms` of `ARMPLATDB`, which sets `includes` to
`null`, or, with `override` false, leaves it to be inherited. -/
def platformsKvs (override : Bool) : List (List Char × Node) :=
  (if override then [("includes".toList, .str "null".toList)] else []) ++
    [("name".toList, .str "EDK II Platforms".toList)]

/-- The dict `fw.edkii`, which includes `fw.edkii.platforms`. -/
def edkiiKvs (override : Bool) : List (List Char × Node) :=
  [("name".toList, .str "EDK II UEFI".toList),
    ("includes".toList, .list [.str "fw.edkii.platforms".toList]),
    ("platforms".toList, .dict (platformsKvs override))]

/-- The dict `fw`, with the keys an `includes` lookup reads. -/
def fwKvs (override : Bool) : List (List Char × Node) :=
  [("name".toList, .str "Firmware & test suites".toList), ("edkii".toList, .dict (edkiiKvs override))]

/-- The `fw` section of `ARMPLATDB`. -/
def edkiiDoc (override : Bool) : List (List Char × Node) :=
  [("fw".toList, .dict (fwKvs override))]

/-- With its `null`, `_add_includes("fw.edkii")` appends
`fw.edkii.platforms` and ends; without it, `fw.edkii.platforms` inherits
the `includes` of `fw.edkii`, which name it, and the walk never ends. -/
theorem edkii_includes :
    addIncludes (fun k b => dblu (edkiiDoc true) 4 k none b) 2 "fw.edkii".toList =
      .ok ["fw.edkii.platforms".toList] ∧
    (edkiiKvs false).lookup "platforms".toList = some (.dict (platformsKvs false)) ∧
    (platformsKvs false).lookup "includes".toList = none ∧
    (∀ s, (Agg.ofDict (edkiiKvs false) "includes".toList <|>
      ((Agg.ofDict (edkiiDoc false)).assimilate (fwKvs false)).assimilate (edkiiKvs false) "includes".toList) ≠
        some (.str s)) ∧
    dblu (edkiiDoc false) 4 ("fw.edkii.platforms".toList ++ ".includes".toList) none true =
      .ok (.node (.list [.str "fw.edkii.platforms".toList])) ∧
    iterItems (.node (.list [.str "fw.edkii.platforms".toList])) =
      .ok [.node (.str "fw.edkii.platforms".toList)] ∧
    (Prod.snd <$> walk (fun d k => lookup (edkiiDoc false) 3 d k none false) (.ofDict (edkiiKvs false))
        (((Agg.ofDict (edkiiDoc false)).assimilate (fwKvs false)).assimilate (edkiiKvs false)) .none
        ["platforms".toList, "includes".toList] =
      Prod.snd <$> walk (fun d k => lookup (edkiiDoc false) 3 d k none false) (.ofDict (edkiiKvs false))
        (((Agg.ofDict (edkiiDoc false)).assimilate (fwKvs false)).assimilate (edkiiKvs false)) .none
        ["includes".toList] ∧
      ∀ n, addIncludes (fun k b => dblu (edkiiDoc false) 4 k none b) n "fw.edkii.platforms".toList =
        .error .outOfFuel) :=
  have hv : ∀ s, (Agg.ofDict (edkiiKvs false) "includes".toList <|>
      ((Agg.ofDict (edkiiDoc false)).assimilate (fwKvs false)).assimilate (edkiiKvs false) "includes".toList) ≠
        some (.str s) := fun _ h => by cases h
  ⟨rfl, rfl, rfl, hv, rfl, rfl,
    @includes_inherited (fun d k => lookup (edkiiDoc false) 3 d k none false) (edkiiKvs false)
      (platformsKvs false) ((Agg.ofDict (edkiiDoc false)).assimilate (fwKvs false)) .none "platforms".toList
      rfl rfl hv (fun k b => dblu (edkiiDoc false) 4 k none b) "fw.edkii.platforms".toList _ [] rfl rfl⟩

end Config

end ArmPlat
