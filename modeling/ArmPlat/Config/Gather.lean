import ArmPlat.Config.Choose
import ArmPlat.Config.Includes
import ArmPlat.Config.Summary
import Mathlib.Data.List.Infix
/-!
# What a round of `config._choose` gathers for `config.sync`

A round of `config._choose` starts from `config.deps`, `config.swcs` and
`config.manifest` emptied. After the platform, each menu adds to them:
`_add_deps(key)` adds the items of `key.deps`, and `_add_swc(key)` adds the
component and what it includes. `_choose_k` and `_choose_fw` also set the
manifest that `config.sync` hands to `repo`.

`_choose_fs` keeps the kernel's filesystems that the platform lists, with
Python's `in` (`pyIn`): an item the platform does not list is dropped
whatever it is, and only the items kept must be strings. `_choose_pb` sets
no manifest (`choosePb_manifest`). A round sets a manifest exactly when it
builds from source, and then the platform's own deps are the first it
gathers (`chooseRound_bfs`).

Each function has one inversion lemma (`addDeps_ok`, `recordFs_ok`,
`choosePb_ok`, `chooseRound_cases`), and the theorems are read off them.
-/

namespace ArmPlat

namespace Config

open Database Menu

/-! ## Reading the values of the database -/

/-- The items a `for` loop visits in a value: those of a list, the
one-character strings of a string, the keys of a dict. `None`, `True` and
integers are not iterable. -/
def forItems : Value → Except Fault (List Value)
  | .node (.list xs) => .ok (xs.map .node)
  | .node (.str s) => .ok (s.map fun c => .node (.str [c]))
  | .node (.dict kvs) => .ok (kvs.map fun kv => .node (.str kv.1))
  | _ => .error .typeError

/-- An item used as a string, where any other value raises `bad`
(`TypeError` for `item + ".name"`, `AttributeError` for
`item.startswith(...)`). -/
def asStr (bad : Fault) : Value → Except Fault (List Char)
  | .node (.str s) => .ok s
  | _ => .error bad

mutual

/-- `a == b` on values of the database: a list equals one with equal items
in order, a dict one with the same keys and equal values. -/
def Node.pyEq : Node → Node → Bool
  | .str s, .str t => s == t
  | .int m, .int n => m == n
  | .list xs, .list ys => Node.listEq xs ys
  | .dict kvs, .dict lvs => kvs.length == lvs.length && Node.dictIn kvs lvs
  | _, _ => false

/-- `==` on two lists, item by item. -/
def Node.listEq : List Node → List Node → Bool
  | [], [] => true
  | x :: xs, y :: ys => Node.pyEq x y && Node.listEq xs ys
  | _, _ => false

/-- Each key of the first dict is in the second, with an equal value. -/
def Node.dictIn : List (List Char × Node) → List (List Char × Node) → Bool
  | [], _ => true
  | (k, v) :: kvs, lvs =>
    (match lvs.lookup k with
      | some w => Node.pyEq v w
      | none => false) && Node.dictIn kvs lvs

end

/-- Python's `set` hashes its items: a list or a dict raises `TypeError`. -/
def hashable : Value → Bool
  | .node (.list _) => false
  | .node (.dict _) => false
  | _ => true

/-- `v in container`: `==` against the items of a list (`True == 1`); a
substring of a string, which needs a `str`; a key of a dict, which needs a
hashable `v`. Anything else raises `TypeError`. -/
def pyIn (v : Value) : Value → Except Fault Bool
  | .node (.list xs) => .ok (match v with
    | .node n => xs.any (Node.pyEq n)
    | .true => xs.any fun | .int 1 => true | _ => false
    | .none => false)
  | .node (.str t) => match v with
    | .node (.str s) => .ok (decide (s <:+: t))
    | _ => .error .typeError
  | .node (.dict kvs) =>
    if hashable v then .ok (match v with
      | .node (.str s) => kvs.any (·.1 == s)
      | _ => false)
    else .error .typeError
  | _ => .error .typeError

/-- `[fs for fs in items if fs in container]`. -/
def filterIn (container : Value) : List Value → Except Fault (List Value)
  | [] => .ok []
  | v :: vs => pyIn v container >>= fun b => (if b then (v :: ·) else id) <$> filterIn container vs

/-- An integer the platform does not list is dropped without a word. -/
example : filterIn (.node (.list [.str "fs.a".toList])) [.node (.int 1), .node (.str "fs.a".toList)] =
    .ok [.node (.str "fs.a".toList)] := rfl

/-! ## What a round gathers -/

/-- What a round of `config._choose` hands to `config.sync`:
`config.deps`, `config.swcs` and `config.manifest`. -/
structure Gathered where
  deps : List Value
  swcs : List (List Char)
  manifest : Value

/-- `config.deps = []`, `config.swcs = []`, `config.manifest = None`. -/
def Gathered.empty : Gathered :=
  ⟨[], [], .none⟩

section Record

/- `look k noneAllowed` is `dblu(k, config.p.meta, noneAllowed)`, and
`fuel` bounds the walks of `_add_includes`. -/
variable (look : List Char → Bool → Except Fault Value) (fuel : Nat)

/-- `config._add_deps(key)`. -/
def addDeps (key : List Char) (g : Gathered) : Except Fault Gathered :=
  (look (key ++ ".deps".toList) true >>= iterItems) >>= fun ds => .ok { g with deps := g.deps ++ ds }

/-- `config._add_includes(key)`: what it appends to `config.swcs`. -/
def addIncludesTo (key : List Char) (g : Gathered) : Except Fault Gathered :=
  addIncludes look fuel key >>= fun s => .ok { g with swcs := g.swcs ++ s }

/-- `config._add_swc(key)`. -/
def addSwc (key : List Char) (g : Gathered) : Except Fault Gathered :=
  addIncludesTo look fuel key { g with swcs := g.swcs ++ [key] }

/-- What `_choose_fs` does with the filesystem `c` the user picked:
`_add_deps(c)`, `_add_swc(c)` and `_add_includes(c)`. -/
def recordFs (c : List Char) (g : Gathered) : Except Fault Gathered :=
  addDeps look c g >>= addSwc look fuel c >>= addIncludesTo look fuel c

/-- What `_choose_k` and `_choose_fw` do with the component `c` the user
picked: as `_choose_fs` does, and then `config.manifest =
dblu(c + ".manifest", p)`. -/
def recordComponent (c : List Char) (g : Gathered) : Except Fault Gathered :=
  recordFs look fuel c g >>= fun g =>
    look (c ++ ".manifest".toList) false >>= fun m => .ok { g with manifest := m }

end Record

section Menus

variable (look : List Char → Bool → Except Fault Value) (fuel : Nat)

/-- `tree_prompt(title, choice.tree(keylist, root, p))`. `choice.tree`
returns `None` for a `keylist` of `root` alone, and `tree_prompt(None)`
raises `AttributeError`. `none` when the answers run out. -/
def promptTree (keylist : List (List Char)) (root : List Char) (ans : List (Option Int)) :
    Except Fault (Option (Choice × List (Option Int))) :=
  tree look fuel keylist root >>= fun
    | none => .error .attributeError
    | some t => treePrompt t ans

/-- `_choose_k` and `_choose_fw`, for `key` `"k"` or `"fw"` of the platform
`p`: the menu of `choice.tree(dblu(p + "." + key, p), key, p)`, and what
the component picked adds. -/
def chooseComponent (key p : List Char) (ans : List (Option Int)) (g : Gathered) :
    Except Fault (Option (Choice × List (Option Int) × Gathered)) :=
  look (p ++ '.' :: key) false >>= forItems >>= (·.mapM (asStr .attributeError)) >>= fun keys =>
    promptTree look fuel keys key ans >>= fun
      | none => .ok none
      | some (c, ans) => (fun g => some (c, ans, g)) <$> recordComponent look fuel c.meta g

/-- `config._choose_k()`. -/
def chooseK : List Char → List (Option Int) → Gathered →
    Except Fault (Option (Choice × List (Option Int) × Gathered)) :=
  chooseComponent look fuel "k".toList

/-- `config._choose_fw()`. -/
def chooseFw : List Char → List (Option Int) → Gathered →
    Except Fault (Option (Choice × List (Option Int) × Gathered)) :=
  chooseComponent look fuel "fw".toList

/-- `config._choose_fs()` for the platform `p` and the kernel `k`: the
menu of the kernel's filesystems that the platform lists too. -/
def chooseFs (p k : List Char) (ans : List (Option Int)) (g : Gathered) :
    Except Fault (Option (Choice × List (Option Int) × Gathered)) :=
  look (p ++ ".fs".toList) false >>= fun platFss =>
  look (k ++ ".fs".toList) false >>= fun kernelFss =>
  forItems kernelFss >>= filterIn platFss >>= (·.mapM (asStr .attributeError)) >>= fun fss =>
  promptTree look fuel fss "fs".toList ans >>= fun
    | none => .ok none
    | some (c, ans) => (fun g => some (c, ans, g)) <$> recordFs look fuel c.meta g

/-- The last choice of `_choose_pb`'s menu. -/
def allChoice : Choice :=
  leafChoice (.node (.str "<< all >>".toList)) "all".toList

/-- `if len(choices)==1: config.pb = choices[0]`, with
`log.warn("only avail. option is "+config.pb.name)`, else the menu with
"<< all >>" added. -/
def pickPb (choices : List Choice) (ans : List (Option Int)) :
    Except Fault (Option (Choice × List (Option Int))) :=
  match choices with
  | [c] => asName c.name >>= fun _ => .ok (some (c, ans))
  | _ =>
    prompt (choices ++ [allChoice]) ans >>= fun
      | none => .ok none
      | some (i, rest) => .ok ((choices ++ [allChoice])[i]?.map (·, rest))

/-- `config._choose_pb()` for the platform `p`. `listSet xs` is
`list(set(xs))`, in the order in which `set` hands its items over. -/
def choosePb (listSet : List Value → List Value) (p : List Char) (ans : List (Option Int))
    (g : Gathered) : Except Fault (Option (Choice × List (Option Int) × Gathered)) :=
  look (p ++ ".pb".toList) false >>= forItems >>= fun pbs =>
  pbs.mapM (fun pb => asStr .typeError pb >>= fun pb =>
    (leafChoice · pb) <$> look (pb ++ ".name".toList) false) >>= fun choices =>
  pickPb choices ans >>= fun
  | none => .ok none
  | some (c, ans) =>
    if c.meta = "all".toList then
      pbs.mapM (fun pb => asStr .typeError pb >>= fun pb =>
        look (pb ++ ".deps".toList) true >>= iterItems) >>= fun dss =>
      if dss.flatten.all hashable then
        .ok (some (c, ans, { g with deps := g.deps ++ listSet dss.flatten, swcs := [] }))
      else .error .typeError
    else
      (fun g => some (c, ans, g)) <$> (addDeps look c.meta g >>= addIncludesTo look fuel c.meta)

/-- What a round of `config._choose` assigns to `config.ws`, `config.env`,
`config.k`, `config.fs`, `config.fw` and `config.pb`: the workspace type
always, each other one `none` where the round leaves it as it was. -/
structure Picks where
  ws : Choice
  env : Option Choice
  k : Option Choice
  fs : Option Choice
  fw : Option Choice
  pb : Option Choice

/-- `config._choose()` from `_choose_ws()` on, for the platform `p` and
with `g` what `_choose_p` gathered; `lookRoot k` is `dblu(k)`. It returns
what the round picked, the answers left and what it gathered, or `none`
when the answers run out. The checks of the host, between `_choose_ws` and
`_add_deps(p)`, are taken to pass. -/
def chooseRound (lookRoot : List Char → Except Fault Value) (linux : Bool)
    (listSet : List Value → List Value) (p : List Char) (ans : List (Option Int)) (g : Gathered) :
    Except Fault (Option (Picks × List (Option Int) × Gathered)) :=
  wsMenu linux (look · true) p >>= fun wsm =>
  treePrompt wsm ans >>= fun
  | none => .ok none
  | some (ws, ans) =>
    if ws.meta = "bfs".toList then
      addDeps look p g >>= fun g =>
      envMenu (look · true) lookRoot p >>= fun envm =>
      treePrompt envm ans >>= fun
      | none => .ok none
      | some (env, ans) =>
        if env.meta = "k".toList then
          chooseK look fuel p ans g >>= fun
            | none => .ok none
            | some (k, ans, g) =>
              Option.map (fun r => (⟨ws, some env, some k, some r.1, none, none⟩, r.2)) <$>
                chooseFs look fuel p k.meta ans g
        else if env.meta = "fw".toList then
          Option.map (fun r => (⟨ws, some env, none, none, some r.1, none⟩, r.2)) <$>
            chooseFw look fuel p ans g
        else .ok (some (⟨ws, some env, none, none, none, none⟩, ans, g))
    else if ws.meta = "pbc".toList then
      Option.map (fun r => (⟨ws, none, none, none, none, some r.1⟩, r.2)) <$>
        choosePb look fuel listSet p ans g
    else .ok (some (⟨ws, none, none, none, none, none⟩, ans, g))

end Menus

/-! ## One step at a time -/

section Steps

variable {look : List Char → Bool → Except Fault Value} {fuel : Nat} {g g' : Gathered}

theorem addDeps_ok {key : List Char} (h : addDeps look key g = .ok g') :
    ∃ ds, (look (key ++ ".deps".toList) true >>= iterItems) = .ok ds ∧
      g' = ⟨g.deps ++ ds, g.swcs, g.manifest⟩ := by
  obtain ⟨ds, hds, h⟩ := bind_eq_ok.1 h
  exact ⟨ds, hds, (Except.ok.inj h).symm⟩

theorem addIncludesTo_ok {key : List Char} (h : addIncludesTo look fuel key g = .ok g') :
    ∃ s, addIncludes look fuel key = .ok s ∧ g' = ⟨g.deps, g.swcs ++ s, g.manifest⟩ := by
  obtain ⟨s, hs, h⟩ := bind_eq_ok.1 h
  exact ⟨s, hs, (Except.ok.inj h).symm⟩

theorem addSwc_ok {key : List Char} (h : addSwc look fuel key g = .ok g') :
    ∃ s, addIncludes look fuel key = .ok s ∧ g' = ⟨g.deps, g.swcs ++ key :: s, g.manifest⟩ := by
  obtain ⟨s, hs, rfl⟩ := addIncludesTo_ok h
  exact ⟨s, hs, by simp⟩

/-- `_choose_fs` adds the deps of `c`, then `c` and its includes, then its
includes again. -/
theorem recordFs_ok {c : List Char} (h : recordFs look fuel c g = .ok g') :
    ∃ ds s, (look (c ++ ".deps".toList) true >>= iterItems) = .ok ds ∧
      addIncludes look fuel c = .ok s ∧ g' = ⟨g.deps ++ ds, g.swcs ++ c :: (s ++ s), g.manifest⟩ := by
  obtain ⟨g₂, h₂, h₃⟩ := bind_eq_ok.1 h
  obtain ⟨g₁, h₁, h₂⟩ := bind_eq_ok.1 h₂
  obtain ⟨ds, hds, rfl⟩ := addDeps_ok h₁
  obtain ⟨s, hs, rfl⟩ := addSwc_ok h₂
  obtain ⟨s', hs', rfl⟩ := addIncludesTo_ok h₃
  have e : s = s' := Except.ok.inj (hs.symm.trans hs')
  subst e
  exact ⟨ds, s, hds, hs, by simp⟩

theorem recordComponent_ok {c : List Char} (h : recordComponent look fuel c g = .ok g') :
    ∃ ds s m, (look (c ++ ".deps".toList) true >>= iterItems) = .ok ds ∧
      addIncludes look fuel c = .ok s ∧ look (c ++ ".manifest".toList) false = .ok m ∧
      g' = ⟨g.deps ++ ds, g.swcs ++ c :: (s ++ s), m⟩ := by
  obtain ⟨g₁, h₁, h⟩ := bind_eq_ok.1 h
  obtain ⟨m, hm, h⟩ := bind_eq_ok.1 h
  obtain ⟨ds, s, hds, hs, rfl⟩ := recordFs_ok h₁
  exact ⟨ds, s, m, hds, hs, hm, (Except.ok.inj h).symm⟩

theorem chooseComponent_ok {key p : List Char} {ans ans' : List (Option Int)} {c : Choice}
    (h : chooseComponent look fuel key p ans g = .ok (some (c, ans', g'))) :
    recordComponent look fuel c.meta g = .ok g' := by
  obtain ⟨keys, -, h⟩ := bind_eq_ok.1 h
  obtain ⟨r, -, h⟩ := bind_eq_ok.1 h
  rcases r with _ | ⟨c₀, ans₀⟩
  · nomatch h
  · obtain ⟨g₀, hg, h⟩ := map_eq_ok.1 h
    cases h
    exact hg

theorem chooseFs_ok {p k : List Char} {ans ans' : List (Option Int)} {c : Choice}
    (h : chooseFs look fuel p k ans g = .ok (some (c, ans', g'))) :
    recordFs look fuel c.meta g = .ok g' := by
  obtain ⟨platFss, -, h⟩ := bind_eq_ok.1 h
  obtain ⟨kernelFss, -, h⟩ := bind_eq_ok.1 h
  obtain ⟨fss, -, h⟩ := bind_eq_ok.1 h
  obtain ⟨r, -, h⟩ := bind_eq_ok.1 h
  rcases r with _ | ⟨c₀, ans₀⟩
  · nomatch h
  · obtain ⟨g₀, hg, h⟩ := map_eq_ok.1 h
    cases h
    exact hg

theorem checkNone_false_ne_none (key : List Char) (plat : Option (List Char)) (v : Value) :
    checkNone key plat false v ≠ .ok .none := by
  cases v <;> simp [checkNone]

/-- A lookup through a table, which answers `None` for a key it lacks and,
as `dblu` does, aborts then unless `noneAllowed`. -/
def tableLook (table : List (List Char × Value)) (k : List Char) (noneAllowed : Bool) :
    Except Fault Value :=
  checkNone k none noneAllowed ((table.lookup k).getD .none)

/-- A string of the database. -/
def strV (s : String) : Value :=
  .node (.str s.toList)

/-- A list of strings of the database. -/
def strsV (ss : List String) : Value :=
  .node (.list (ss.map fun s => .str s.toList))

/-- The platforms `b` and `c` of `p.all`. `b` has one kernel `k.x`,
including `oc.z`, with one filesystem `fs.y`, and no firmware; `b` needs
`dl.gcc`. `c` has two prebuilt configurations, whose deps share `dl.img`. -/
def boardTable : List (List Char × Value) :=
  [("b.k".toList, strsV ["k.x"]), ("b.fs".toList, strsV ["fs.y"]),
    ("b.deps".toList, strsV ["dl.gcc"]), ("k.name".toList, strV "Linux kernel"),
    ("k.x.name".toList, strV "X"), ("k.x.includes".toList, strsV ["oc.z"]),
    ("k.x.manifest".toList, strV "x.xml"), ("k.x.fs".toList, strsV ["fs.y"]),
    ("fs.y.name".toList, strV "Y"), ("fs.y.deps".toList, strsV ["dl.y"]),
    ("c.pb".toList, strsV ["pb.u", "pb.v"]), ("pb.u.name".toList, strV "U"),
    ("pb.v.name".toList, strV "V"), ("pb.u.deps".toList, strsV ["dl.img", "dl.u"]),
    ("pb.v.deps".toList, strsV ["dl.img"]), ("p.all".toList, strsV ["b", "c"])]

theorem asStr_ok {bad : Fault} {v : Value} {s : List Char} (h : asStr bad v = .ok s) :
    v = .node (.str s) := by
  match v, h with
  | .node (.str _), h => cases h; rfl

/-- The configuration `_choose_pb` returns is one of its menu, or "<< all >>". -/
theorem pickPb_mem {choices : List Choice} {ans rest : List (Option Int)} {c : Choice}
    (h : pickPb choices ans = .ok (some (c, rest))) : c ∈ choices ∨ c = allChoice := by
  unfold pickPb at h
  split at h
  · obtain ⟨_, -, h⟩ := bind_eq_ok.1 h
    cases h
    exact .inl (List.mem_singleton_self _)
  · obtain ⟨o, -, h⟩ := bind_eq_ok.1 h
    rcases o with _ | ⟨i, rest'⟩
    · nomatch h
    obtain ⟨c', hc', h⟩ := Option.map_eq_some'.1 (Except.ok.inj h)
    cases h
    rcases List.mem_append.1 (List.getElem?_mem hc') with h | h
    · exact .inl h
    · exact .inr (List.mem_singleton.1 h)

theorem choosePb_ok {listSet : List Value → List Value} {p : List Char}
    {ans ans' : List (Option Int)} {c : Choice}
    (h : choosePb look fuel listSet p ans g = .ok (some (c, ans', g'))) :
    ∃ pbs, (look (p ++ ".pb".toList) false >>= forItems) = .ok pbs ∧
      ((c.meta = "all".toList ∧ ∃ dss, pbs.mapM (fun pb => asStr .typeError pb >>= fun pb =>
          look (pb ++ ".deps".toList) true >>= iterItems) = .ok dss ∧
        g' = ⟨g.deps ++ listSet dss.flatten, [], g.manifest⟩) ∨
      (c.meta ≠ "all".toList ∧ .node (.str c.meta) ∈ pbs ∧
        (addDeps look c.meta g >>= addIncludesTo look fuel c.meta) = .ok g')) := by
  obtain ⟨pbs, hpbs, h⟩ := bind_eq_ok.1 h
  obtain ⟨choices, hchoices, h⟩ := bind_eq_ok.1 h
  refine ⟨pbs, hpbs, ?_⟩
  obtain ⟨o, hp, h⟩ := bind_eq_ok.1 h
  rcases o with _ | ⟨c₀, ans₀⟩
  · nomatch h
  dsimp only at h
  split_ifs at h with hall
  · obtain ⟨dss, hdss, h⟩ := bind_eq_ok.1 h
    split_ifs at h
    cases h
    exact .inl ⟨hall, dss, hdss, rfl⟩
  · obtain ⟨g₀, hg, h⟩ := map_eq_ok.1 h
    cases h
    have hc : c ∈ choices := (pickPb_mem hp).resolve_right fun h => hall (h ▸ rfl)
    obtain ⟨pb, hpb, hc⟩ := mem_of_mapM_eq_ok hchoices c hc
    obtain ⟨s, hs, hc⟩ := bind_eq_ok.1 hc
    obtain ⟨n, -, rfl⟩ := map_eq_ok.1 hc
    exact .inr ⟨hall, asStr_ok hs ▸ hpb, hg⟩

/-- `_choose_pb` leaves the manifest as it was. -/
theorem choosePb_manifest {listSet : List Value → List Value} {p : List Char}
    {ans ans' : List (Option Int)} {c : Choice}
    (h : choosePb look fuel listSet p ans g = .ok (some (c, ans', g'))) : g'.manifest = g.manifest := by
  obtain ⟨pbs, -, ⟨-, dss, -, rfl⟩ | ⟨-, -, hx⟩⟩ := choosePb_ok h
  · rfl
  · obtain ⟨g₁, h₁, h₂⟩ := bind_eq_ok.1 hx
    obtain ⟨ds, -, rfl⟩ := addDeps_ok h₁
    obtain ⟨s, -, rfl⟩ := addIncludesTo_ok h₂
    rfl

/-- The string of a value, if it is one. -/
def strKey : Value → Option (List Char)
  | .node (.str s) => some s
  | _ => none

/-- `list(set(xs))` of strings, in the order they are first met: one of the
orders `set` may hand them over in. -/
def firstSeen : List Value → List Value
  | [] => []
  | v :: vs => v :: (firstSeen vs).filter fun w => (strKey w).isNone || strKey w != strKey v

end Steps

/-! ## A round -/

section Round

variable {look : List Char → Bool → Except Fault Value} {fuel : Nat}
  {lookRoot : List Char → Except Fault Value} {linux : Bool} {listSet : List Value → List Value}
  {p : List Char} {ans ans' : List (Option Int)} {g g' : Gathered} {picks : Picks}

/-- **What a round can do**, one case per branch of `_choose`: build from
source, with a kernel and a filesystem, with firmware, or with neither;
take a prebuilt configuration; or neither. -/
theorem chooseRound_cases
    (h : chooseRound look fuel lookRoot linux listSet p ans g = .ok (some (picks, ans', g'))) :
    ∃ wsm ans₁, wsMenu linux (look · true) p = .ok wsm ∧ treePrompt wsm ans = .ok (some (picks.ws, ans₁)) ∧
      ((picks.ws.meta = "bfs".toList ∧ ∃ g₁ envm env ans₂, addDeps look p g = .ok g₁ ∧
          envMenu (look · true) lookRoot p = .ok envm ∧ treePrompt envm ans₁ = .ok (some (env, ans₂)) ∧
          ((∃ k ans₃ g₂ fs, env.meta = "k".toList ∧ chooseK look fuel p ans₂ g₁ = .ok (some (k, ans₃, g₂)) ∧
              chooseFs look fuel p k.meta ans₃ g₂ = .ok (some (fs, ans', g')) ∧
              picks = ⟨picks.ws, some env, some k, some fs, none, none⟩) ∨
            (∃ fw, env.meta ≠ "k".toList ∧ chooseFw look fuel p ans₂ g₁ = .ok (some (fw, ans', g')) ∧
              picks = ⟨picks.ws, some env, none, none, some fw, none⟩) ∨
            (env.meta ≠ "k".toList ∧ env.meta ≠ "fw".toList ∧ g' = g₁ ∧
              picks = ⟨picks.ws, some env, none, none, none, none⟩))) ∨
        (picks.ws.meta = "pbc".toList ∧ ∃ pb, choosePb look fuel listSet p ans₁ g = .ok (some (pb, ans', g')) ∧
          picks = ⟨picks.ws, none, none, none, none, some pb⟩) ∨
        (picks.ws.meta ≠ "bfs".toList ∧ picks.ws.meta ≠ "pbc".toList ∧ g' = g ∧
          picks = ⟨picks.ws, none, none, none, none, none⟩)) := by
  obtain ⟨wsm, hwsm, h⟩ := bind_eq_ok.1 h
  obtain ⟨o, hw, h⟩ := bind_eq_ok.1 h
  rcases o with _ | ⟨ws, ans₁⟩
  · nomatch h
  dsimp only at h
  have hsome : ∀ {α : Type} {f : α → Picks × List (Option Int) × Gathered} {x : Except Fault (Option α)},
      Option.map f <$> x = .ok (some (picks, ans', g')) → ∃ a, x = .ok (some a) ∧ f a = (picks, ans', g') :=
    fun {α f x} h => by
      obtain ⟨o, ho, h⟩ := map_eq_ok.1 h
      rcases o with _ | a
      · nomatch h
      exact ⟨a, ho, Option.some.inj h⟩
  refine ⟨wsm, ans₁, hwsm, ?_⟩
  split_ifs at h with hbfs hpbc
  · obtain ⟨g₁, hg₁, h⟩ := bind_eq_ok.1 h
    obtain ⟨envm, henvm, h⟩ := bind_eq_ok.1 h
    obtain ⟨o, he, h⟩ := bind_eq_ok.1 h
    rcases o with _ | ⟨env, ans₂⟩
    · nomatch h
    dsimp only at h
    split_ifs at h with hk hfw
    · obtain ⟨r, hr, h⟩ := bind_eq_ok.1 h
      rcases r with _ | ⟨k, ans₃, g₂⟩
      · nomatch h
      obtain ⟨⟨fs, ans₄, g₄⟩, hfs, hf⟩ := hsome h
      cases hf
      exact ⟨hw, .inl ⟨hbfs, g₁, envm, env, ans₂, hg₁, henvm, he, .inl ⟨k, ans₃, g₂, fs, hk, hr, hfs, rfl⟩⟩⟩
    · obtain ⟨⟨fw, ans₄, g₄⟩, hfw', hf⟩ := hsome h
      cases hf
      exact ⟨hw, .inl ⟨hbfs, g₁, envm, env, ans₂, hg₁, henvm, he, .inr (.inl ⟨fw, hk, hfw', rfl⟩)⟩⟩
    · cases h
      exact ⟨hw, .inl ⟨hbfs, _, envm, env, _, hg₁, henvm, he, .inr (.inr ⟨hk, hfw, rfl, rfl⟩)⟩⟩
  · obtain ⟨⟨pb, ans₄, g₄⟩, hpb, hf⟩ := hsome h
    cases hf
    exact ⟨hw, .inr (.inl ⟨hpbc, pb, hpb, rfl⟩)⟩
  · cases h
    exact ⟨hw, .inr (.inr ⟨hbfs, hpbc, rfl, rfl⟩)⟩

/-- After "Build from source" a round picks a kernel, then a filesystem, or
firmware: the environment menu offers nothing else. -/
theorem chooseRound_bfs_cases
    (h : chooseRound look fuel lookRoot linux listSet p ans g = .ok (some (picks, ans', g')))
    (hbfs : picks.ws.meta = "bfs".toList) :
    ∃ g₁ env ans₂, addDeps look p g = .ok g₁ ∧
      ((∃ k ans₃ g₂ fs, env.meta = "k".toList ∧ chooseK look fuel p ans₂ g₁ = .ok (some (k, ans₃, g₂)) ∧
          chooseFs look fuel p k.meta ans₃ g₂ = .ok (some (fs, ans', g')) ∧
          picks = ⟨picks.ws, some env, some k, some fs, none, none⟩) ∨
        (∃ fw, env.meta ≠ "k".toList ∧ chooseFw look fuel p ans₂ g₁ = .ok (some (fw, ans', g')) ∧
          picks = ⟨picks.ws, some env, none, none, some fw, none⟩)) := by
  obtain ⟨wsm, ans₁, hwsm, hw, hcases⟩ := chooseRound_cases h
  rcases hcases with ⟨-, g₁, envm, env, ans₂, hg₁, henvm, he, hk | hfw | ⟨hk, hfw, -⟩⟩ | ⟨hpbc, -⟩ | ⟨hne, -⟩
  · exact ⟨g₁, env, ans₂, hg₁, .inl hk⟩
  · exact ⟨g₁, env, ans₂, hg₁, .inr hfw⟩
  · obtain ⟨ks, fws, hks, hfws, htruthy, -⟩ := truthy_of_bfs hwsm hw hbfs
    rcases (envMenu_picks henvm hks hfws htruthy).2 _ _ _ he with h | h
    exacts [absurd h hk, absurd h hfw]
  · exact absurd (hpbc.symm.trans hbfs) (by decide)
  · exact absurd hbfs hne

/-- A build from source gathers the platform's deps before any other. -/
theorem deps_prefix_of_bfs
    (h : chooseRound look fuel lookRoot linux listSet p ans g = .ok (some (picks, ans', g')))
    (hbfs : picks.ws.meta = "bfs".toList) :
    ∃ ds, (look (p ++ ".deps".toList) true >>= iterItems) = .ok ds ∧ g.deps ++ ds <+: g'.deps := by
  obtain ⟨g₁, _, _, hg₁, hbranch⟩ := chooseRound_bfs_cases h hbfs
  obtain ⟨ds, hds, rfl⟩ := addDeps_ok hg₁
  refine ⟨ds, hds, ?_⟩
  rcases hbranch with ⟨k, ans₃, g₂, fs, -, hk, hfs, -⟩ | ⟨fw, -, hfw, -⟩
  · obtain ⟨ds₂, _, _, -, -, -, rfl⟩ := recordComponent_ok (chooseComponent_ok hk)
    obtain ⟨ds₃, _, -, -, rfl⟩ := recordFs_ok (chooseFs_ok hfs)
    exact ⟨ds₂ ++ ds₃, by simp⟩
  · obtain ⟨ds₂, _, _, -, -, -, rfl⟩ := recordComponent_ok (chooseComponent_ok hfw)
    exact ⟨ds₂, by simp⟩

/-- A round that starts with no manifest sets one only by building from
source. -/
theorem bfs_of_manifest (hg : g.manifest = .none)
    (h : chooseRound look fuel lookRoot linux listSet p ans g = .ok (some (picks, ans', g')))
    (hm : g'.manifest ≠ .none) : picks.ws.meta = "bfs".toList := by
  obtain ⟨wsm, ans₁, -, -, hcases⟩ := chooseRound_cases h
  rcases hcases with ⟨hbfs, -⟩ | ⟨-, pb, hpb, -⟩ | ⟨-, -, rfl, -⟩
  · exact hbfs
  · exact absurd ((choosePb_manifest hpb).trans hg) hm
  · exact absurd hg hm

/-- With lookups that never answer `None` without `noneAllowed`, a build
from source sets the manifest. -/
theorem manifest_of_bfs (hstrict : ∀ k, look k false ≠ .ok .none)
    (h : chooseRound look fuel lookRoot linux listSet p ans g = .ok (some (picks, ans', g')))
    (hbfs : picks.ws.meta = "bfs".toList) : g'.manifest ≠ .none := by
  obtain ⟨g₁, _, _, -, ⟨k, ans₃, g₂, fs, -, hk, hfs, -⟩ | ⟨fw, -, hfw, -⟩⟩ := chooseRound_bfs_cases h hbfs
  · obtain ⟨_, _, m, -, -, hm, rfl⟩ := recordComponent_ok (chooseComponent_ok hk)
    obtain ⟨_, _, -, -, rfl⟩ := recordFs_ok (chooseFs_ok hfs)
    exact fun (hm' : m = .none) => hstrict _ (hm' ▸ hm)
  · obtain ⟨_, _, m, -, -, hm, rfl⟩ := recordComponent_ok (chooseComponent_ok hfw)
    exact fun (hm' : m = .none) => hstrict _ (hm' ▸ hm)

/-- After "Build from source" a round assigns the environment, and with it
the filesystem, for a kernel, or the firmware. -/
theorem picks_of_bfs
    (h : chooseRound look fuel lookRoot linux listSet p ans g = .ok (some (picks, ans', g')))
    (hbfs : picks.ws.meta = "bfs".toList) :
    ∃ env, picks.env = some env ∧ (env.meta = "k".toList → ∃ fs, picks.fs = some fs) ∧
      (env.meta ≠ "k".toList → ∃ fw, picks.fw = some fw) := by
  obtain ⟨_, env, _, -, ⟨k, _, _, fs, hk, -, -, hp⟩ | ⟨fw, hk, -, hp⟩⟩ := chooseRound_bfs_cases h hbfs
  · rw [hp]
    exact ⟨env, rfl, fun _ => ⟨fs, rfl⟩, fun h => absurd hk h⟩
  · rw [hp]
    exact ⟨env, rfl, fun h => absurd h hk, fun _ => ⟨fw, rfl⟩⟩

/-- **A round sets the manifest exactly when it builds from source, and then
gathers the platform's deps first.** For lookups that, like `dblu`, never
answer `None` without `noneAllowed`, and a round that starts with no
manifest: "Build from source" leads to `_choose_k` or `_choose_fw`, which
set it, while `_choose_pb` and a workspace type that is neither leave it
unset. So `config.sync` runs `repo` after a build from source only. The
deps of a build from source start with the platform's own. -/
theorem chooseRound_bfs (hstrict : ∀ k, look k false ≠ .ok .none) (hg : g.manifest = .none)
    (h : chooseRound look fuel lookRoot linux listSet p ans g = .ok (some (picks, ans', g'))) :
    (g'.manifest ≠ .none ↔ picks.ws.meta = "bfs".toList) ∧
    (picks.ws.meta = "bfs".toList → ∃ ds, (look (p ++ ".deps".toList) true >>= iterItems) = .ok ds ∧
      g.deps ++ ds <+: g'.deps) :=
  ⟨⟨bfs_of_manifest hg h, manifest_of_bfs hstrict h⟩, deps_prefix_of_bfs h⟩

/-- The platform `b` of `boardTable` builds from source with its one kernel
and its one filesystem, with no question asked. -/
theorem chooseRound_board :
    ∃ picks g', chooseRound (tableLook boardTable) 4 (fun k => tableLook boardTable k false) true
        firstSeen "b".toList [] Gathered.empty = .ok (some (picks, [], g')) ∧
      (∀ k, tableLook boardTable k false ≠ .ok .none) ∧ Gathered.empty.manifest = .none ∧
      (g'.manifest ≠ .none ↔ picks.ws.meta = "bfs".toList) ∧
      (picks.ws.meta = "bfs".toList → ∃ ds, (tableLook boardTable ("b".toList ++ ".deps".toList) true >>=
        iterItems) = .ok ds ∧ Gathered.empty.deps ++ ds <+: g'.deps) :=
  have hstrict : ∀ k, tableLook boardTable k false ≠ .ok .none := fun k =>
    checkNone_false_ne_none k none _
  ⟨_, _, rfl, hstrict, rfl, @chooseRound_bfs (tableLook boardTable) 4
    (fun k => tableLook boardTable k false) true firstSeen "b".toList [] [] Gathered.empty _ _ hstrict rfl rfl⟩

end Round

end Config

end ArmPlat
