import ArmPlat.Config.Gather
/-!
# Rounds of questions — `config.query`

`config.query()` runs `config._choose()` until the user accepts what a
round chose. Each round first empties `config.deps`, `config.swcs` and
`config.manifest`. The attributes the menus assign (`config.ws`,
`config.env`, `config.k`, `config.fs`, `config.fw`, `config.pb`) are not
emptied: one that the accepted round does not assign keeps what a declined
round gave it.

A round reads the attributes before it only to keep those it does not
assign (`choose_from`), and `config.query` returns what the round the user
accepted left (`query_last`); `ArmPlat.Config.Run` draws from them what
`config.sync` reads.
-/

namespace ArmPlat

namespace Config

open Database Menu

/-- The attributes of the class `config` that `_choose` assigns. `none` is
one never assigned, whose reading raises `AttributeError`. -/
structure Attrs where
  p : Option Choice
  ws : Option Choice
  env : Option Choice
  k : Option Choice
  fs : Option Choice
  fw : Option Choice
  pb : Option Choice
  gathered : Gathered

/-- Before the first round nothing is assigned. -/
def Attrs.initial : Attrs :=
  ⟨none, none, none, none, none, none, none, Gathered.empty⟩

/-- The attributes after a round that picked the platform `p` and `picks`,
and gathered `g`: those the round does not assign keep their values. -/
def Attrs.assign (c : Attrs) (p : Choice) (picks : Picks) (g : Gathered) : Attrs :=
  ⟨some p, some picks.ws, picks.env.or c.env, picks.k.or c.k, picks.fs.or c.fs, picks.fw.or c.fw,
    picks.pb.or c.pb, g⟩

@[simp] theorem Attrs.assign_p (c : Attrs) (p : Choice) (picks : Picks) (g : Gathered) :
    (c.assign p picks g).p = some p := rfl

@[simp] theorem Attrs.assign_ws (c : Attrs) (p : Choice) (picks : Picks) (g : Gathered) :
    (c.assign p picks g).ws = some picks.ws := rfl

@[simp] theorem Attrs.assign_gathered (c : Attrs) (p : Choice) (picks : Picks) (g : Gathered) :
    (c.assign p picks g).gathered = g := rfl

/-- The menu of "Proceed with this configuration?": `choice("Yes", True)`
and `choice("No", False)`, whose `meta` is read here by its index. -/
def proceedChoices : List Choice :=
  [leafChoice (strV "Yes") [], leafChoice (strV "No") []]

/-- `config._choose()`, with `lookAt plat k noneAllowed` for `dblu(k, plat,
noneAllowed)`. It returns the attributes after the round, whether the user
accepts it, and the answers left; `none` when the answers run out.
`summary p swcs` is the table of components, which sorts `config.swcs` by
the priorities they look up for the platform `p`. The checks of the host
are taken to pass, and `config.cfg` is left out. -/
def choose (lookAt : Option (List Char) → List Char → Bool → Except Fault Value) (fuel : Nat)
    (linux : Bool) (listSet : List Value → List Value)
    (summary : List Char → List (List Char) → Except Fault (List (List Char))) (c : Attrs)
    (ans : List (Option Int)) : Except Fault (Option (Attrs × Bool × List (Option Int))) :=
  lookAt none "p.all".toList false >>= forItems >>= (·.mapM (asStr .attributeError)) >>= fun keys =>
  tree (lookAt none) fuel keys "p".toList >>= fun
    | none => .error .attributeError
    | some ptree =>
      ChooseP.crawl linux (lookAt none) ptree >>= fun ptree =>
      treePrompt ptree ans >>= fun
      | none => .ok none
      | some (p, ans) =>
        addIncludesTo (lookAt (some p.meta)) fuel p.meta Gathered.empty >>= fun g =>
        chooseRound (lookAt (some p.meta)) fuel (fun k => lookAt none k false) linux listSet p.meta
          ans g >>= fun
          | none => .ok none
          | some (picks, ans, g) =>
            summary p.meta g.swcs >>= fun swcs =>
            (Option.map fun r => (c.assign p picks { g with swcs := swcs }, r.1 == 0, r.2)) <$>
              prompt proceedChoices ans

/-- `config.query()`: `while not config._choose(): pass`, for at most
`rounds` rounds. -/
def query (lookAt : Option (List Char) → List Char → Bool → Except Fault Value) (fuel : Nat)
    (linux : Bool) (listSet : List Value → List Value)
    (summary : List Char → List (List Char) → Except Fault (List (List Char))) :
    Nat → Attrs → List (Option Int) → Except Fault (Option (Attrs × List (Option Int)))
  | 0, _, _ => .error .outOfFuel
  | rounds + 1, c, ans =>
    choose lookAt fuel linux listSet summary c ans >>= fun
      | none => .ok none
      | some (c, true, ans) => .ok (some (c, ans))
      | some (c, false, ans) => query lookAt fuel linux listSet summary rounds c ans

section Rounds

variable {lookAt : Option (List Char) → List Char → Bool → Except Fault Value} {fuel : Nat}
  {linux : Bool} {listSet : List Value → List Value}
  {summary : List Char → List (List Char) → Except Fault (List (List Char))}

/-- A round assigns the platform, its picks and what it gathered, from a
round of the menus that starts with no manifest. It reads the attributes
before it only to keep those it does not assign: from any others, the same
answers give the same round. -/
theorem choose_from {c₁ c : Attrs} {b : Bool} {ans ans' : List (Option Int)}
    (h : choose lookAt fuel linux listSet summary c₁ ans = .ok (some (c, b, ans'))) :
    ∃ p g₀ picks ans₁ ans₂ g swcs, g₀.manifest = .none ∧
      chooseRound (lookAt (some p.meta)) fuel (fun k => lookAt none k false) linux listSet p.meta
        ans₁ g₀ = .ok (some (picks, ans₂, g)) ∧ c = c₁.assign p picks { g with swcs := swcs } ∧
      ∀ c₂, choose lookAt fuel linux listSet summary c₂ ans =
        .ok (some (c₂.assign p picks { g with swcs := swcs }, b, ans')) := by
  obtain ⟨keys, hkeys, h⟩ := bind_eq_ok.1 h
  obtain ⟨t, ht, h⟩ := bind_eq_ok.1 h
  rcases t with _ | ptree
  · nomatch h
  obtain ⟨ptree', hcrawl, h⟩ := bind_eq_ok.1 h
  obtain ⟨o, hp, h⟩ := bind_eq_ok.1 h
  rcases o with _ | ⟨p, ans₁⟩
  · nomatch h
  dsimp only at h
  obtain ⟨g₀, hg₀, h⟩ := bind_eq_ok.1 h
  obtain ⟨r, hr, h⟩ := bind_eq_ok.1 h
  rcases r with _ | ⟨picks, ans₂, g⟩
  · nomatch h
  obtain ⟨swcs, hswcs, h⟩ := bind_eq_ok.1 h
  obtain ⟨o, hi, h⟩ := map_eq_ok.1 h
  obtain ⟨⟨i, ans₃⟩, rfl, hc⟩ := Option.map_eq_some'.1 h
  cases hc
  obtain ⟨_, -, hg⟩ := addIncludesTo_ok hg₀
  refine ⟨p, g₀, picks, ans₁, ans₂, g, swcs, hg ▸ rfl, hr, rfl, fun c₂ => ?_⟩
  simp only [choose, hkeys, ok_bind, ht, hcrawl, hp, hg₀, hr, hswcs, hi]
  rfl

/-- `config.query` returns what the round the user accepted left. -/
theorem query_last :
    ∀ {rounds : Nat} {c₀ c : Attrs} {ans ans' : List (Option Int)},
      query lookAt fuel linux listSet summary rounds c₀ ans = .ok (some (c, ans')) →
        ∃ c₁ ans₁, choose lookAt fuel linux listSet summary c₁ ans₁ = .ok (some (c, true, ans'))
  | 0, _, _, _, _, h => nomatch h
  | rounds + 1, c₀, c, ans, ans', h => by
    obtain ⟨r, hr, h⟩ := bind_eq_ok.1 h
    rcases r with _ | ⟨c₁, _ | _, ans₁⟩
    · nomatch h
    · exact query_last h
    · obtain ⟨rfl, rfl⟩ := Prod.mk.inj (Option.some.inj (Except.ok.inj h))
      exact ⟨c₀, ans, hr⟩

end Rounds

end Config

end ArmPlat
