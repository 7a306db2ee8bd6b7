import ArmPlat.Config.Run
/-!
# QA mode — `run_qa`

In QA mode the script asks nothing. For every platform of `p.all` it
collects the manifests of the platform's kernels and firmware, and runs
`sh.fetch` on the deps of the platform's filesystems and prebuilt
configurations; then it syncs each manifest once.

Its lookups decide what it fetches (`qaCalls`): when they all succeed, the
run is `sh.fetch` of those calls, in order, against the host (`runQa_eq`),
and what it fetches for a platform is exactly the deps of the filesystems
and prebuilt configurations that platform lists (`mem_qaCalls`). The deps a
platform lists for itself are not among them: a build from source of the
platform gathers them first, and `config.sync` fetches them, but QA mode
fetches one of them only when some filesystem or prebuilt configuration of
the platform needs it too (`qa_skips_platform_deps`).
-/

namespace ArmPlat

namespace Script

open Database Config

/-- `keys = (fss if fss else []) + (pbs if pbs else [])`, and the items
`for k in keys` visits: two lists concatenate, and so do two strings; any
other sum raises `TypeError`, or gives a value that is not iterable. -/
def qaKeys (fss pbs : Value) : Except Fault (List Value) :=
  match (if truthy fss then fss else .node (.list [])), (if truthy pbs then pbs else .node (.list [])) with
  | .node (.list xs), .node (.list ys) => .ok ((xs ++ ys).map .node)
  | .node (.str s), .node (.str t) => .ok ((s ++ t).map fun c => .node (.str [c]))
  | _, _ => .error .typeError

/-- `if ks: [manifests.append(dblu(k+".manifest", plat=p)) for k in ks]`. -/
def qaManifests (look : List Char → Bool → Except Fault Value) (ks : Value) :
    Except Fault (List Value) :=
  if truthy ks then
    forItems ks >>= (·.mapM fun k => asStr .typeError k >>= fun k => look (k ++ ".manifest".toList) false)
  else .ok []

/-- The deps `if deps: [sh.fetch(d, ...) for d in deps]` hands over for the
key `k`. -/
def qaDeps (look : List Char → Bool → Except Fault Value) (k : Value) : Except Fault (List Value) :=
  asStr .typeError k >>= fun k => look (k ++ ".deps".toList) true >>= iterItems

/-- What the lookups of `run_qa`'s loop decide for the platform `p`, where
`look k noneAllowed` is `dblu(k, p, noneAllowed)`: the manifests it
appends, and the deps it hands to `sh.fetch`, in order. -/
def qaPlan (look : List Char → Bool → Except Fault Value) (p : List Char) :
    Except Fault (List Value × List Value) :=
  look (p ++ ".k".toList) true >>= fun ks =>
  look (p ++ ".fw".toList) true >>= fun fws =>
  look (p ++ ".fs".toList) true >>= fun fss =>
  look (p ++ ".pb".toList) true >>= fun pbs =>
  qaManifests look ks >>= fun km =>
  qaManifests look fws >>= fun fm =>
  qaKeys fss pbs >>= fun keys =>
  keys.mapM (qaDeps look) >>= fun dss =>
  .ok (km ++ fm, dss.flatten)

/-- What the lookups of `run_qa()` decide, with `lookAt plat k
noneAllowed` for `dblu(k, plat, noneAllowed)`: each call `sh.fetch(d,
plat=p, force_fresh=True)`, as the pair `(p, d)`, and the manifests that
`list(set(manifests))` then syncs. -/
def qaCalls (lookAt : Option (List Char) → List Char → Bool → Except Fault Value) :
    Except Fault (List (List Char × Value) × List Value) :=
  lookAt none "p.all".toList false >>= forItems >>= fun ps =>
  ps.mapM (fun p => asStr .typeError p >>= fun p =>
    (fun r => (r.2.map (p, ·), r.1)) <$> qaPlan (lookAt (some p)) p) >>= fun rs =>
  .ok ((rs.map Prod.fst).flatten, (rs.map Prod.snd).flatten)

/-- `sh.fetch(d, plat=p, force_fresh=True)`, for the call `(p, d)`. -/
def qaFetch (lookAt : Option (List Char) → List Char → Bool → Except Fault Value) (net : Shell.Net)
    (c : List Char × Value) : Shell.Sh Unit := do
  let _ ← fetchDep (lookAt (some c.1)) net true c.2

/-- `for k in keys: deps = dblu(k+".deps", plat=p, noneAllowed=True)` and
`if deps: [sh.fetch(d, plat=p, force_fresh=True) for d in deps]`. -/
def qaFetchKeys (lookAt : Option (List Char) → List Char → Bool → Except Fault Value)
    (net : Shell.Net) (p : List Char) (keys : List Value) : Shell.Sh Unit :=
  keys.forM fun k => do
    let ds ← Shell.ofFault (qaDeps (lookAt (some p)) k)
    ds.forM fun d => qaFetch lookAt net (p, d)

/-- The body of `run_qa`'s loop for the platform `p`, against the host: the
manifests it appends, with the deps fetched as it meets them. -/
def qaPlatform (lookAt : Option (List Char) → List Char → Bool → Except Fault Value)
    (net : Shell.Net) (p : List Char) : Shell.Sh (List Value) := do
  let ks ← Shell.ofFault (lookAt (some p) (p ++ ".k".toList) true)
  let fws ← Shell.ofFault (lookAt (some p) (p ++ ".fw".toList) true)
  let fss ← Shell.ofFault (lookAt (some p) (p ++ ".fs".toList) true)
  let pbs ← Shell.ofFault (lookAt (some p) (p ++ ".pb".toList) true)
  let km ← Shell.ofFault (qaManifests (lookAt (some p)) ks)
  let fm ← Shell.ofFault (qaManifests (lookAt (some p)) fws)
  let keys ← Shell.ofFault (qaKeys fss pbs)
  qaFetchKeys lookAt net p keys
  pure (km ++ fm)

/-- `run_qa()` against the host, up to the syncs of the manifests it
returns: `">>> Running QA for platform "+p` needs a `str`. -/
def runQa (lookAt : Option (List Char) → List Char → Bool → Except Fault Value) (net : Shell.Net) :
    Shell.Sh (List Value) := do
  let ps ← Shell.ofFault (lookAt none "p.all".toList false >>= forItems)
  let mss ← ps.mapM fun p => Shell.ofFault (asStr .typeError p) >>= qaPlatform lookAt net
  pure mss.flatten

/-! ## What QA mode fetches -/

theorem mem_flatten_map_of_mapM {α β γ : Type} {f : α → Except Fault β} {g : β → List γ} :
    ∀ {l : List α} {rs : List β}, l.mapM f = .ok rs → ∀ {y : γ},
      y ∈ (rs.map g).flatten ↔ ∃ x ∈ l, ∃ r, f x = .ok r ∧ y ∈ g r
  | [], rs, h, y => by
    cases h
    simp
  | x :: l, rs, h, y => by
    rw [List.mapM_cons] at h
    obtain ⟨b, hb, h⟩ := bind_eq_ok.1 h
    obtain ⟨bs, hbs, h⟩ := bind_eq_ok.1 h
    cases h
    rw [List.map_cons, List.flatten_cons, List.mem_append, mem_flatten_map_of_mapM hbs]
    constructor
    · rintro (hy | ⟨x', hx', r, hr, hy⟩)
      · exact ⟨x, List.mem_cons_self _ _, b, hb, hy⟩
      · exact ⟨x', List.mem_cons_of_mem _ hx', r, hr, hy⟩
    · rintro ⟨x', hx', r, hr, hy⟩
      rcases List.mem_cons.1 hx' with rfl | hx'
      · obtain rfl : b = r := Except.ok.inj (hb.symm.trans hr)
        exact .inl hy
      · exact .inr ⟨x', hx', r, hr, hy⟩

theorem ok_of_mapM_eq_ok {α β : Type} {f : α → Except Fault β} :
    ∀ {l : List α} {rs : List β}, l.mapM f = .ok rs → ∀ x ∈ l, ∃ r, f x = .ok r
  | [], _, _, _, hx => nomatch hx
  | y :: l, rs, h, x, hx => by
    rw [List.mapM_cons] at h
    obtain ⟨b, hb, h⟩ := bind_eq_ok.1 h
    obtain ⟨bs, hbs, -⟩ := bind_eq_ok.1 h
    rcases List.mem_cons.1 hx with rfl | hx
    exacts [⟨b, hb⟩, ok_of_mapM_eq_ok hbs x hx]

section Platform

variable {look : List Char → Bool → Except Fault Value} {p : List Char}

theorem qaPlan_ok {ms ds : List Value} (h : qaPlan look p = .ok (ms, ds)) :
    ∃ ks fws fss pbs km fm keys dss, look (p ++ ".k".toList) true = .ok ks ∧
      look (p ++ ".fw".toList) true = .ok fws ∧ look (p ++ ".fs".toList) true = .ok fss ∧
      look (p ++ ".pb".toList) true = .ok pbs ∧ qaManifests look ks = .ok km ∧
      qaManifests look fws = .ok fm ∧ qaKeys fss pbs = .ok keys ∧ keys.mapM (qaDeps look) = .ok dss ∧
      ms = km ++ fm ∧ ds = dss.flatten := by
  obtain ⟨ks, hks, h⟩ := bind_eq_ok.1 h
  obtain ⟨fws, hfws, h⟩ := bind_eq_ok.1 h
  obtain ⟨fss, hfss, h⟩ := bind_eq_ok.1 h
  obtain ⟨pbs, hpbs, h⟩ := bind_eq_ok.1 h
  obtain ⟨km, hkm, h⟩ := bind_eq_ok.1 h
  obtain ⟨fm, hfm, h⟩ := bind_eq_ok.1 h
  obtain ⟨keys, hkeys, h⟩ := bind_eq_ok.1 h
  obtain ⟨dss, hdss, h⟩ := bind_eq_ok.1 h
  obtain ⟨rfl, rfl⟩ := Prod.mk.inj (Except.ok.inj h)
  exact ⟨ks, fws, fss, pbs, km, fm, keys, dss, hks, hfws, hfss, hpbs, hkm, hfm, hkeys, hdss, rfl, rfl⟩

/-- The deps QA mode fetches for a platform are those of the keys of its
`fs` and `pb` lists. -/
theorem mem_qaPlan {ms ds : List Value} (h : qaPlan look p = .ok (ms, ds)) (d : Value) :
    d ∈ ds ↔ ∃ fss pbs keys, look (p ++ ".fs".toList) true = .ok fss ∧
      look (p ++ ".pb".toList) true = .ok pbs ∧ qaKeys fss pbs = .ok keys ∧
      ∃ k ∈ keys, ∃ es, qaDeps look k = .ok es ∧ d ∈ es := by
  obtain ⟨-, -, fss, pbs, -, -, keys, dss, -, -, hfss, hpbs, -, -, hkeys, hdss, -, rfl⟩ := qaPlan_ok h
  rw [← List.map_id dss, mem_flatten_map_of_mapM hdss]
  constructor
  · exact fun hd => ⟨fss, pbs, keys, hfss, hpbs, hkeys, hd⟩
  · rintro ⟨fss', pbs', keys', hfss', hpbs', hkeys', hd⟩
    obtain rfl : fss = fss' := Except.ok.inj (hfss.symm.trans hfss')
    obtain rfl : pbs = pbs' := Except.ok.inj (hpbs.symm.trans hpbs')
    obtain rfl : keys = keys' := Except.ok.inj (hkeys.symm.trans hkeys')
    exact hd

end Platform

/-- The calls `run_qa` makes are those of its platforms, each with the
platform it was made for. -/
theorem mem_qaCalls {lookAt : Option (List Char) → List Char → Bool → Except Fault Value}
    {calls : List (List Char × Value)} {ms : List Value} (h : qaCalls lookAt = .ok (calls, ms))
    (p : List Char) (d : Value) :
    (p, d) ∈ calls ↔ ∃ ps, (lookAt none "p.all".toList false >>= forItems) = .ok ps ∧
      .node (.str p) ∈ ps ∧ ∃ ms' ds, qaPlan (lookAt (some p)) p = .ok (ms', ds) ∧ d ∈ ds := by
  obtain ⟨ps, hps, h⟩ := bind_eq_ok.1 h
  obtain ⟨rs, hrs, h⟩ := bind_eq_ok.1 h
  simp only [Except.ok.injEq, Prod.mk.injEq] at h
  rw [← h.1, mem_flatten_map_of_mapM hrs]
  constructor
  · rintro ⟨v, hv, r, hr, hpd⟩
    obtain ⟨s, hs, hr⟩ := bind_eq_ok.1 hr
    obtain ⟨⟨ms', ds⟩, hq, rfl⟩ := map_eq_ok.1 hr
    obtain ⟨d', hd', hpd⟩ := List.mem_map.1 hpd
    cases hpd
    exact ⟨ps, hps, asStr_ok hs ▸ hv, ms', ds, hq, hd'⟩
  · rintro ⟨ps', hps', hp, ms', ds, hq, hd⟩
    obtain rfl : ps = ps' := Except.ok.inj (hps.symm.trans hps')
    refine ⟨_, hp, (ds.map (p, ·), ms'), ?_, List.mem_map_of_mem _ hd⟩
    show (asStr .typeError (.node (.str p)) >>= _) = _
    simp only [asStr, ok_bind, hq]
    rfl

/-! ## What QA mode runs -/

section Runs

theorem forM_map {α β : Type} {m : Type → Type} [Monad m] (f : α → β) (g : β → m PUnit) :
    ∀ l : List α, (l.map f).forM g = l.forM (g ∘ f)
  | [] => rfl
  | a :: l => by rw [List.map_cons, List.forM_cons', List.forM_cons', forM_map f g l]; rfl

variable {lookAt : Option (List Char) → List Char → Bool → Except Fault Value} {net : Shell.Net}

theorem qaFetchKeys_eq {p : List Char} :
    ∀ {keys : List Value} {dss : List (List Value)}, keys.mapM (qaDeps (lookAt (some p))) = .ok dss →
      qaFetchKeys lookAt net p keys = (dss.flatten.map (p, ·)).forM (qaFetch lookAt net)
  | [], _, h => by
    cases h
    rfl
  | k :: keys, _, h => by
    rw [List.mapM_cons] at h
    obtain ⟨ds, hds, h⟩ := bind_eq_ok.1 h
    obtain ⟨dss, hdss, h⟩ := bind_eq_ok.1 h
    cases h
    have ih := @qaFetchKeys_eq p keys dss hdss
    unfold qaFetchKeys at ih ⊢
    rw [List.forM_cons', hds, Shell.ofFault_ok, pure_bind, ih, List.flatten_cons, List.map_append,
      List.forM_append, forM_map _ _ ds]
    rfl

/-- The body of the loop, against the host, is `sh.fetch` of the deps its
lookups decide, in order. -/
theorem qaPlatform_eq {p : List Char} {ms ds : List Value} (h : qaPlan (lookAt (some p)) p = .ok (ms, ds)) :
    qaPlatform lookAt net p = (ds.map (p, ·)).forM (qaFetch lookAt net) >>= fun _ => pure ms := by
  obtain ⟨_, _, _, _, _, _, _, _, hks, hfws, hfss, hpbs, hkm, hfm, hkeys, hdss, rfl, rfl⟩ := qaPlan_ok h
  simp only [qaPlatform, hks, hfws, hfss, hpbs, hkm, hfm, hkeys, Shell.ofFault_ok, pure_bind,
    qaFetchKeys_eq hdss]

theorem mapM_qaPlatform_eq :
    ∀ {ps : List Value} {rs : List (List (List Char × Value) × List Value)},
      ps.mapM (fun p => asStr .typeError p >>= fun p =>
        (fun r => (r.2.map (p, ·), r.1)) <$> qaPlan (lookAt (some p)) p) = .ok rs →
      ps.mapM (fun p => Shell.ofFault (asStr .typeError p) >>= qaPlatform lookAt net) =
        (rs.map Prod.fst).flatten.forM (qaFetch lookAt net) >>= fun _ => pure (rs.map Prod.snd)
  | [], _, h => by
    cases h
    simp only [List.reverse_nil, List.map_nil, List.flatten_nil, List.forM_nil', pure_bind]
    rfl
  | p :: ps, _, h => by
    rw [List.mapM_cons] at h
    obtain ⟨r, hr, h⟩ := bind_eq_ok.1 h
    obtain ⟨rs, hrs, h⟩ := bind_eq_ok.1 h
    cases h
    obtain ⟨s, hs, hr⟩ := bind_eq_ok.1 hr
    obtain ⟨⟨ms, ds⟩, hplan, rfl⟩ := map_eq_ok.1 hr
    rw [List.mapM_cons, hs, Shell.ofFault_ok, pure_bind, qaPlatform_eq hplan, mapM_qaPlatform_eq hrs]
    simp only [List.map_cons, List.flatten_cons, List.forM_append, bind_assoc, pure_bind]

/-- **What QA mode runs.** When the lookups of `run_qa` succeed, the run is
`sh.fetch` of the calls they decide, in order, against the host, and it
returns the manifests they collect. -/
theorem runQa_eq {calls : List (List Char × Value)} {ms : List Value} (h : qaCalls lookAt = .ok (calls, ms)) :
    runQa lookAt net = calls.forM (qaFetch lookAt net) >>= fun _ => pure ms := by
  obtain ⟨ps, hps, h⟩ := bind_eq_ok.1 h
  obtain ⟨rs, hrs, h⟩ := bind_eq_ok.1 h
  obtain ⟨rfl, rfl⟩ := Prod.mk.inj (Except.ok.inj h)
  simp only [runQa, hps, Shell.ofFault_ok, pure_bind, mapM_qaPlatform_eq hrs, bind_assoc]

end Runs

/-- **QA mode does not fetch what a platform needs for itself.** When its
lookups succeed, `run_qa` runs `sh.fetch`, in order and against the host, on
exactly the deps of the keys of `q`'s `fs` and `pb` lists, for each
platform `q` of `p.all`. A round of `config._choose` that builds from
source for `p`, with the same lookups, gathers `p`'s own deps first, and
`config.sync` fetches them; QA mode fetches one of them for `p` only when a
filesystem or a prebuilt configuration of `p` lists it too. -/
theorem qa_skips_platform_deps
    {lookAt : Option (List Char) → List Char → Bool → Except Fault Value}
    {calls : List (List Char × Value)} {ms : List Value} (hqa : qaCalls lookAt = .ok (calls, ms))
    {fuel : Nat} {lookRoot : List Char → Except Fault Value} {linux : Bool}
    {listSet : List Value → List Value} {p : List Char} {ans ans' : List (Option Int)}
    {g g' : Gathered} {picks : Picks}
    (hround : chooseRound (lookAt (some p)) fuel lookRoot linux listSet p ans g =
      .ok (some (picks, ans', g')))
    (hbfs : picks.ws.meta = "bfs".toList) :
    (∀ net, runQa lookAt net = calls.forM (qaFetch lookAt net) >>= fun _ => pure ms) ∧
    (∀ q d, (q, d) ∈ calls ↔ ∃ ps, (lookAt none "p.all".toList false >>= forItems) = .ok ps ∧
      .node (.str q) ∈ ps ∧ ∃ fss pbs keys, lookAt (some q) (q ++ ".fs".toList) true = .ok fss ∧
        lookAt (some q) (q ++ ".pb".toList) true = .ok pbs ∧ qaKeys fss pbs = .ok keys ∧
        ∃ k ∈ keys, ∃ es, qaDeps (lookAt (some q)) k = .ok es ∧ d ∈ es) ∧
    ∃ ds, (lookAt (some p) (p ++ ".deps".toList) true >>= iterItems) = .ok ds ∧
      g.deps ++ ds <+: g'.deps := by
  refine ⟨fun _ => runQa_eq hqa, fun q d => ?_, deps_prefix_of_bfs hround hbfs⟩
  rw [mem_qaCalls hqa]
  constructor
  · rintro ⟨ps, hps, hq, ms', ds, hplat, hd⟩
    exact ⟨ps, hps, hq, (mem_qaPlan hplat d).1 hd⟩
  · rintro ⟨ps, hps, hq, hdeps⟩
    obtain ⟨ps', hps', h⟩ := bind_eq_ok.1 hqa
    obtain ⟨rs, hrs, -⟩ := bind_eq_ok.1 h
    obtain rfl : ps = ps' := Except.ok.inj (hps.symm.trans hps')
    obtain ⟨r, hr⟩ := ok_of_mapM_eq_ok hrs _ hq
    obtain ⟨s, hs, hr⟩ := bind_eq_ok.1 hr
    obtain rfl : q = s := Except.ok.inj hs
    obtain ⟨⟨ms', ds⟩, hplat, -⟩ := map_eq_ok.1 hr
    exact ⟨ps, hps, hq, ms', ds, hplat, (mem_qaPlan hplat d).2 hdeps⟩

/-- On `boardTable`, a build from source of `b` gathers its toolchain
`dl.gcc`, which QA mode never fetches. -/
theorem qa_skips_board :
    ∃ calls ms picks g', qaCalls (fun _ => tableLook boardTable) = .ok (calls, ms) ∧
      chooseRound (tableLook boardTable) 4 (fun k => tableLook boardTable k false) true firstSeen
        "b".toList [] Gathered.empty = .ok (some (picks, [], g')) ∧ picks.ws.meta = "bfs".toList ∧
      strV "dl.gcc" ∈ g'.deps ∧ (∀ q, (q, strV "dl.gcc") ∉ calls) ∧
      (∀ net, runQa (fun _ => tableLook boardTable) net =
        calls.forM (qaFetch (fun _ => tableLook boardTable) net) >>= fun _ => pure ms) ∧
      (∀ q d, (q, d) ∈ calls ↔ ∃ ps, (tableLook boardTable "p.all".toList false >>= forItems) = .ok ps ∧
        .node (.str q) ∈ ps ∧ ∃ fss pbs keys, tableLook boardTable (q ++ ".fs".toList) true = .ok fss ∧
          tableLook boardTable (q ++ ".pb".toList) true = .ok pbs ∧ qaKeys fss pbs = .ok keys ∧
          ∃ k ∈ keys, ∃ es, qaDeps (tableLook boardTable) k = .ok es ∧ d ∈ es) ∧
      ∃ ds, (tableLook boardTable ("b".toList ++ ".deps".toList) true >>= iterItems) = .ok ds ∧
        Gathered.empty.deps ++ ds <+: g'.deps := by
  refine ⟨_, _, _, _, rfl, rfl, rfl, .head _, fun q hq => ?_,
    @qa_skips_platform_deps (fun _ => tableLook boardTable) _ _ rfl 4 (fun k => tableLook boardTable k false)
      true firstSeen "b".toList [] [] Gathered.empty _ _ rfl rfl⟩
  simp [strV] at hq

end Script

end ArmPlat
