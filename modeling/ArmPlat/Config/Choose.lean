import ArmPlat.Menu.Prompt
/-!
# The workspace type and the environment — `_choose_ws` and `_choose_env`

After the platform, `config._choose` asks what kind of workspace to make:
`_choose_ws` offers "Build from source" when the platform has kernels or
firmware and the host runs Linux, and "Use prebuilt configuration" when it
has prebuilt configurations; `tree_prompt` takes an only child without
asking. After "Build from source", `_choose_env` offers the kernels and the
firmware.

Off Linux, `_choose_p` lets the user reach only platforms whose `pb` lookup
counts a prebuilt configuration. `_choose_ws` reads the same key, with the
platform passed; when that lookup agrees, its menu holds the prebuilt
configuration alone, and `tree_prompt` returns it without a question
(`chooseWs_offLinux`). After "Build from source" the environment menu is not
empty, and its walk ends at the kernels or the firmware, so `_choose` always
goes on to `_choose_k` or `_choose_fw` (`truthy_of_bfs`, `envMenu_picks`).
-/

namespace ArmPlat

namespace Config

open Database Menu

/-- `bool(v)`. -/
def truthy : Value → Bool
  | .none => false
  | .true => true
  | .node (.str s) => !s.isEmpty
  | .node (.int n) => n != 0
  | .node (.list xs) => !xs.isEmpty
  | .node (.dict kvs) => !kvs.isEmpty

/-- `choice(name, meta=meta)`: no description, not disabled, no children. -/
def leafChoice (name : Value) (meta : List Char) : Choice :=
  .mk name meta .none false []

/-- The choice "Build from source" of `_choose_ws`. -/
def bfsChoice : Choice :=
  leafChoice (.node (.str "Build from source".toList)) "bfs".toList

/-- The choice "Use prebuilt configuration" of `_choose_ws`. -/
def pbcChoice : Choice :=
  leafChoice (.node (.str "Use prebuilt configuration".toList)) "pbc".toList

/-- The menu of `config._choose_ws()` for the platform `p`, with `look k`
for `dblu(k, p, True)` and `linux` for `HOST=="Linux"`. -/
def wsMenu (linux : Bool) (look : List Char → Except Fault Value) (p : List Char) :
    Except Fault Choice := do
  let ks ← look (p ++ ".k".toList)
  let fws ← look (p ++ ".fw".toList)
  let pbs ← look (p ++ ".pb".toList)
  pure (.mk (.node (.str "<ws>".toList)) "ws".toList .none false
    ((if (truthy ks || truthy fws) && linux then [bfsChoice] else []) ++
      (if truthy pbs then [pbcChoice] else [])))

/-- `if v: root.add(choice(dblu(nameKey), meta=meta))`, the entry of
`_choose_env` for the kernels or for the firmware. -/
def envEntry (lookRoot : List Char → Except Fault Value) (v : Value) (nameKey meta : List Char) :
    Except Fault (List Choice) :=
  if truthy v then (fun n => [leafChoice n meta]) <$> lookRoot nameKey else .ok []

/-- The menu of `config._choose_env()` for the platform `p`: `look` as in
`wsMenu`, and `lookRoot k` for `dblu(k)`. -/
def envMenu (look lookRoot : List Char → Except Fault Value) (p : List Char) :
    Except Fault Choice := do
  let ks ← look (p ++ ".k".toList)
  let fws ← look (p ++ ".fw".toList)
  let kc ← envEntry lookRoot ks "k.name".toList "k".toList
  let fc ← envEntry lookRoot fws "fw.name".toList "fw".toList
  pure (.mk (.node (.str "<env>".toList)) "env".toList .none false (kc ++ fc))

/-! ## Counting and truth -/

/-- `len(pbs) if pbs else 0` is positive exactly when `pbs` is truthy. -/
theorem pos_iff_truthy_of_lenIfTruthy {v : Value} {n : Nat} (h : lenIfTruthy v = .ok n) :
    0 < n ↔ truthy v = true := by
  match v, h with
  | .none, h => cases h; simp [truthy]
  | .true, h => nomatch h
  | .node (.str s), h => cases h; simp [truthy, List.length_pos]
  | .node (.int z), h =>
    rw [lenIfTruthy] at h
    split at h
    · cases h; simp [truthy, *]
    · nomatch h
  | .node (.list xs), h => cases h; simp [truthy, List.length_pos]
  | .node (.dict kvs), h => cases h; simp [truthy, List.length_pos]

/-! ## `_choose_ws` -/

/-- A menu with one child named by a `str` is walked into it without a
question. -/
theorem treePrompt_only {name descr : Value} {meta : List Char} {disabled : Bool} {c : Choice}
    (hc : c.name.isStr = true) (ans : List (Option Int)) :
    treePrompt (.mk name meta descr disabled [c]) ans = treePrompt c ans := by
  rw [treePrompt, asName_eq, if_pos hc, ok_bind]

theorem wsMenu_of_look {linux : Bool} {look : List Char → Except Fault Value} {p : List Char}
    {ws : Choice} (h : wsMenu linux look p = .ok ws) :
    ∃ ks fws pbs, look (p ++ ".k".toList) = .ok ks ∧ look (p ++ ".fw".toList) = .ok fws ∧
      look (p ++ ".pb".toList) = .ok pbs ∧
      ws = .mk (.node (.str "<ws>".toList)) "ws".toList .none false
        ((if (truthy ks || truthy fws) && linux then [bfsChoice] else []) ++
          (if truthy pbs then [pbcChoice] else [])) := by
  simp only [wsMenu, bind_eq_ok] at h
  obtain ⟨ks, hks, fws, hfws, pbs, hpbs, h⟩ := h
  exact ⟨ks, fws, pbs, hks, hfws, hpbs, (Except.ok.inj h).symm⟩

/-- **Off Linux, the workspace type is the prebuilt configuration, and no
question is asked.** For a platform `tree_prompt` returns from a crawled
menu whose root is enabled, where `_choose_ws`'s `pb` lookup (with the
platform) gives what `crawl`'s (without it) gave, the menu of `_choose_ws`
holds "Use prebuilt configuration" alone, and `tree_prompt` returns it
whatever the user answers, reading no answer. -/
theorem chooseWs_offLinux {look : List Char → Bool → Except Fault Value}
    {lookP : List Char → Except Fault Value} {t t' r ws : Choice} {ans rest : List (Option Int)}
    (hc : ChooseP.crawl false look t = .ok t') (ht : t'.disabled = false)
    (hr : treePrompt t' ans = .ok (some (r, rest)))
    (hpb : lookP (r.meta ++ ".pb".toList) = look (r.meta ++ ".pb".toList) true)
    (hws : wsMenu false lookP r.meta = .ok ws) :
    ws.children = [pbcChoice] ∧ ∀ ans', treePrompt ws ans' = .ok (some (pbcChoice, ans')) := by
  obtain ⟨-, hpre⟩ := (treePrompt_prompted hr).enabled (crawl_sound hc) ht
  obtain ⟨v, n, hv, hn, hpos⟩ := hpre rfl
  obtain ⟨ks, fws, pbs, -, -, hpbs, rfl⟩ := wsMenu_of_look hws
  rw [hpb, hv, Except.ok.injEq] at hpbs
  subst hpbs
  have htruthy : truthy v = true := (pos_iff_truthy_of_lenIfTruthy hn).1 hpos
  simp only [Bool.and_false, Bool.false_eq_true, if_false, htruthy, if_true, List.nil_append]
  exact ⟨rfl, fun ans' => by rw [@treePrompt_only _ _ _ _ pbcChoice rfl]; rfl⟩

/-- Two boards below `p`: `p.a`, and `p.b`. -/
def twoBoards : Choice :=
  .mk (.node (.str "<root>".toList)) "p".toList .none false
    [.mk (.node (.str "A".toList)) "p.a".toList .none false [],
      .mk (.node (.str "B".toList)) "p.b".toList .none false []]

/-- The lookups of `twoBoards`: `p.b.pb` is `None`, and every other key
gives a list of one item. -/
def twoBoardsLook (k : List Char) (_ : Bool) : Except Fault Value :=
  if k = "p.b.pb".toList then .ok .none else .ok (.node (.list [.str "x".toList]))

theorem chooseWs_twoBoards :
    ∃ t' r ws, ChooseP.crawl false twoBoardsLook twoBoards = .ok t' ∧ t'.disabled = false ∧
      treePrompt t' [some 1] = .ok (some (r, [])) ∧
      wsMenu false (fun k => twoBoardsLook k true) r.meta = .ok ws ∧
      ws.children = [pbcChoice] ∧ ∀ ans', treePrompt ws ans' = .ok (some (pbcChoice, ans')) :=
  ⟨_, _, _, rfl, rfl, rfl, rfl, @chooseWs_offLinux twoBoardsLook (fun k => twoBoardsLook k true)
    twoBoards _ _ _ [some 1] [] rfl rfl rfl rfl rfl⟩

/-! ## `_choose_env` -/

/-- The entry of `_choose_env` is one leaf with its `meta`, present exactly
when the lookup is truthy. -/
theorem envEntry_ok {lookRoot : List Char → Except Fault Value} {v : Value} {nameKey meta : List Char}
    {cs : List Choice} (h : envEntry lookRoot v nameKey meta = .ok cs) :
    (∀ c ∈ cs, c.children = [] ∧ c.meta = meta) ∧ (cs ≠ [] ↔ truthy v = true) := by
  unfold envEntry at h
  cases hv : truthy v <;> simp only [hv, Bool.false_eq_true, if_false, if_true, map_eq_ok] at h
  · cases h
    simp
  · obtain ⟨n, -, rfl⟩ := h
    exact ⟨fun c hc => List.mem_singleton.1 hc ▸ ⟨rfl, rfl⟩, by simp⟩

theorem envMenu_of_look {look lookRoot : List Char → Except Fault Value} {p : List Char} {env : Choice}
    (h : envMenu look lookRoot p = .ok env) :
    ∃ ks fws kc fc, look (p ++ ".k".toList) = .ok ks ∧ look (p ++ ".fw".toList) = .ok fws ∧
      envEntry lookRoot ks "k.name".toList "k".toList = .ok kc ∧
      envEntry lookRoot fws "fw.name".toList "fw".toList = .ok fc ∧
      env = .mk (.node (.str "<env>".toList)) "env".toList .none false (kc ++ fc) := by
  simp only [envMenu, bind_eq_ok] at h
  obtain ⟨ks, hks, fws, hfws, kc, hkc, fc, hfc, h⟩ := h
  exact ⟨ks, fws, kc, fc, hks, hfws, hkc, hfc, (Except.ok.inj h).symm⟩

theorem mem_wsChildren {c : Choice} {b d : Bool} :
    c ∈ (if b then [bfsChoice] else []) ++ (if d then [pbcChoice] else []) ↔
      b = true ∧ c = bfsChoice ∨ d = true ∧ c = pbcChoice := by
  cases b <;> cases d <;> simp

/-- A walk over a menu of leaves ends at one of them, or, when there is
none, at the root. -/
theorem Prompted.of_leaves {name descr : Value} {meta : List Char} {disabled : Bool}
    {cs : List Choice} {r : Choice} (h : Prompted (.mk name meta descr disabled cs) r)
    (hleaf : ∀ c ∈ cs, c.children = []) :
    r ∈ cs ∨ cs = [] ∧ r = .mk name meta descr disabled [] := by
  have heq : ∀ {c}, c ∈ cs → Prompted c r → r = c := fun {c} hc hp => by
    obtain ⟨n, m, d, x, cs'⟩ := c
    cases (hleaf _ hc : cs' = [])
    cases hp with
    | leaf => rfl
    | pick _ _ _ _ hlen => exact absurd hlen (by decide)
  cases h with
  | leaf => exact .inr ⟨rfl, rfl⟩
  | only _ _ _ _ _ hp => exact .inl (heq (List.mem_singleton_self _) hp ▸ List.mem_singleton_self _)
  | pick _ _ _ _ _ _ hc _ hp => exact .inl (heq hc hp ▸ hc)

/-- "Build from source" is in the menu of `_choose_ws` only on Linux, for a
platform with kernels or firmware. -/
theorem truthy_of_bfs {linux : Bool} {look : List Char → Except Fault Value} {p : List Char}
    {ws r : Choice} {ans rest : List (Option Int)}
    (hws : wsMenu linux look p = .ok ws) (hr : treePrompt ws ans = .ok (some (r, rest)))
    (hbfs : r.meta = "bfs".toList) :
    ∃ ks fws, look (p ++ ".k".toList) = .ok ks ∧ look (p ++ ".fw".toList) = .ok fws ∧
      (truthy ks || truthy fws) = true ∧ linux = true := by
  obtain ⟨ks, fws, pbs, hks, hfws, -, rfl⟩ := wsMenu_of_look hws
  have hcond : ((truthy ks || truthy fws) && linux) = true := by
    rcases Prompted.of_leaves (treePrompt_prompted hr)
        (fun c hc => by rcases mem_wsChildren.1 hc with ⟨-, rfl⟩ | ⟨-, rfl⟩ <;> rfl) with hr' | ⟨-, rfl⟩
    · rcases mem_wsChildren.1 hr' with ⟨hb, -⟩ | ⟨-, rfl⟩
      · exact hb
      · exact absurd hbfs (by decide)
    · exact absurd hbfs (by decide)
  rw [Bool.and_eq_true] at hcond
  exact ⟨ks, fws, hks, hfws, hcond⟩

/-- The menu of `_choose_env` for a platform with kernels or firmware is not
empty, and its walk ends at `k` or at `fw`. -/
theorem envMenu_picks {look lookRoot : List Char → Except Fault Value} {p : List Char}
    {env : Choice} {ks fws : Value} (henv : envMenu look lookRoot p = .ok env)
    (hks : look (p ++ ".k".toList) = .ok ks) (hfws : look (p ++ ".fw".toList) = .ok fws)
    (htruthy : (truthy ks || truthy fws) = true) :
    env.children ≠ [] ∧ ∀ ans e rest, treePrompt env ans = .ok (some (e, rest)) →
      e.meta = "k".toList ∨ e.meta = "fw".toList := by
  obtain ⟨ks', fws', kc, fc, hks', hfws', hkc, hfc, rfl⟩ := envMenu_of_look henv
  obtain rfl := Except.ok.inj (hks.symm.trans hks')
  obtain rfl := Except.ok.inj (hfws.symm.trans hfws')
  obtain ⟨hkl, hkn⟩ := envEntry_ok hkc
  obtain ⟨hfl, hfn⟩ := envEntry_ok hfc
  have hne : kc ++ fc ≠ [] := fun h => by
    rw [Bool.or_eq_true, ← hkn, ← hfn] at htruthy
    exact htruthy.elim (· (List.append_eq_nil.1 h).1) (· (List.append_eq_nil.1 h).2)
  have hleaf : ∀ c ∈ kc ++ fc, c.children = [] ∧ (c.meta = "k".toList ∨ c.meta = "fw".toList) :=
    fun c hc => (List.mem_append.1 hc).elim (fun h => ⟨(hkl c h).1, .inl (hkl c h).2⟩)
      (fun h => ⟨(hfl c h).1, .inr (hfl c h).2⟩)
  refine ⟨hne, fun ans e rest he => ?_⟩
  rcases Prompted.of_leaves (treePrompt_prompted he) (fun c hc => (hleaf c hc).1) with he' | ⟨h, -⟩
  · exact (hleaf e he').2
  · exact absurd h hne

end Config

end ArmPlat
