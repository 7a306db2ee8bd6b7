import ArmPlat.Config.Query
import ArmPlat.Config.Sync
import ArmPlat.Shell.Fetch
/-!
# `run()`: `config.query()`, then `config.sync()`

`config.sync()` fetches the deps the accepted round gathered. When the round
set a manifest, it syncs the repo (the loop of `ArmPlat.Config.Sync`), and
then removes the platform directories and the filesystem scripts that the
configuration does not build. For a build from source it ends by printing
where the binaries go. The cleanup and that print read `config.env`, and
then `config.fs` or `config.fw`, through the key of the build script
(`buildKey`).

Those attributes outlive a declined round (`ArmPlat.Config.Query`), but
`config.sync` reads them only after a round that assigned them. On the
attributes `config.query` returns, it does what it would do had the accepted
round been the first, and what it does on any attributes that assign at
least those (`sync_after_query`). The cleanup keeps `common`, the platform's own
directory and the build script, and removes every other directory and
script the loop listed (`sync_removals`).
-/

namespace ArmPlat

namespace Config

open Database Menu

/-- `config.x.meta`, which raises `AttributeError` while `config.x` is
unassigned. -/
def metaOf : Option Choice → Except Fault (List Char)
  | some c => .ok c.meta
  | none => .error .attributeError

/-- `config.fs.meta+".script" if config.env.meta=="k" else
config.fw.meta+".stubfs"`: the key of the build script of the configuration,
which `config.sync` keeps and prints. -/
def buildKey (c : Attrs) : Except Fault (List Char) :=
  metaOf c.env >>= fun env =>
  if env = "k".toList then (· ++ ".script".toList) <$> metaOf c.fs
  else (· ++ ".stubfs".toList) <$> metaOf c.fw

/-- `for d in dirs: if not (d=="common" or d==dblu(p+".pdir")):
sh.rmdir("build-scripts/platforms/"+d)`, with `lookRoot k` for `dblu(k)`. -/
def platformRemovals (lookRoot : List Char → Except Fault Value) (p : List Char) :
    List (List Char) → Except Fault (List Removal)
  | [] => .ok []
  | d :: ds =>
    (if d = "common".toList then .ok []
      else (fun pdir => if strKey pdir = some d then [] else [.rmdir ("build-scripts/platforms/".toList ++ d)]) <$>
        lookRoot (p ++ ".pdir".toList)) >>= fun r =>
    (r ++ ·) <$> platformRemovals lookRoot p ds

/-- `for f in files: if not f==preserve: sh.rm("build-scripts/filesystems/"+f)`. -/
def scriptRemovals (preserve : Value) (files : List (List Char)) : List Removal :=
  (files.filter fun f => strKey preserve != some f).map fun f => .rm ("build-scripts/filesystems/".toList ++ f)

/-- The cleanup after the loop of `config.sync`, for the platform `p` (read
by `sh.reposync` before the loop) and the `dirs` and `files` the loop broke
on. `preserve` is `dblu` of the build script's key, with no platform. -/
def cleanup (lookRoot : List Char → Except Fault Value) (p : List Char) (c : Attrs)
    (dirs files : List (List Char)) : Except Fault (List Removal) :=
  platformRemovals lookRoot p dirs >>= fun rds =>
  buildKey c >>= lookRoot >>= fun preserve =>
  .ok (rds ++ scriptRemovals preserve files)

/-- The end of `config.sync`: for a build from source, the directory
`<pdir>-<script>` it prints for the binaries, as the values of
`dblu("@.pdir", p)` and of the build script's key with `plat=p`. -/
def printOutput (lookAt : Option (List Char) → List Char → Bool → Except Fault Value) (c : Attrs) :
    Except Fault (Option (Value × Value)) :=
  metaOf c.ws >>= fun ws =>
  if ws = "bfs".toList then
    metaOf c.p >>= fun p =>
    lookAt (some p) "@.pdir".toList false >>= fun pdir =>
    buildKey c >>= fun key => (fun script => some (pdir, script)) <$> lookAt (some p) key false
  else .ok none

/-- `sh.fetch(key, plat, force_fresh)`, with `look k noneAllowed` for
`dblu(k, plat, noneAllowed)`: `dblum(key, ["url", "name", "md5name",
"dir"], plat, noneAllowed=True)`, whose `key+"."` needs a `str`; then
`sh.url2dld(url)` and `name.split('/')`, which need `str`s, as does
`md5name.split('/')` when `md5name` is truthy; the downloads; and
`sh.extract_or_copy(dlfile, dstdir)`, whose `sh.mkdir(dstdir)` needs a
`str` too. -/
def fetchDep (look : List Char → Bool → Except Fault Value) (net : Shell.Net) (forceFresh : Bool)
    (key : Value) : Shell.Sh (List Char) := do
  let key ← Shell.ofFault (asStr .typeError key)
  let url ← Shell.ofFault (look (key ++ ".url".toList) true)
  let name ← Shell.ofFault (look (key ++ ".name".toList) true)
  let md5name ← Shell.ofFault (look (key ++ ".md5name".toList) true)
  let dstdir ← Shell.ofFault (look (key ++ ".dir".toList) true)
  let url ← Shell.ofFault (asStr .attributeError url)
  let name ← Shell.ofFault (asStr .attributeError name)
  let md5name ← if truthy md5name then Shell.ofFault (asStr .attributeError md5name) else pure []
  Shell.fetchFiles net url name md5name forceFresh
  let dstdir ← Shell.ofFault (asStr .attributeError dstdir)
  Shell.extractOrCopy (Shell.dlPath url name) dstdir

/-- What `config.sync()` leaves besides the files it fetches: how its loop
ends, `none` when no manifest is set; the removals of the loop's retries
and of the cleanup after it; and what it prints for the binaries. -/
structure SyncRun where
  loop : Option SyncEnd
  retries : List Removal
  removals : List Removal
  output : Option (Value × Value)

/-- `config.sync()` after the deps, with `lookAt plat k noneAllowed` for
`dblu(k, plat, noneAllowed)`, `filename` for `sh.filename` and `as` for the
passes of its loop as the host answers them. `sh.reposync` is left to the
host; the loop stops the run unless it breaks. -/
def syncRepo (lookAt : Option (List Char) → List Char → Bool → Except Fault Value) (filename : List Char)
    (c : Attrs) (as : List Attempt) : Except Fault SyncRun :=
  if truthy c.gathered.manifest then
    metaOf c.p >>= fun p =>
    match syncLoop filename none none as with
    | (.synced dirs files, retries) =>
      cleanup (lookAt none · false) p c dirs files >>= fun rs =>
      (⟨some (.synced dirs files), retries, rs, ·⟩) <$> printOutput lookAt c
    | (e, retries) => .ok ⟨some e, retries, [], none⟩
  else (⟨none, [], [], ·⟩) <$> printOutput lookAt c

/-- `config.sync()`: `sh.fetch(d, plat=config.p.meta)` for each of the
deps, against the host, then the rest. -/
def sync (lookAt : Option (List Char) → List Char → Bool → Except Fault Value) (net : Shell.Net)
    (filename : List Char) (c : Attrs) (as : List Attempt) : Shell.Sh SyncRun := do
  c.gathered.deps.forM fun d => do
    let p ← Shell.ofFault (metaOf c.p)
    let _ ← fetchDep (lookAt (some p)) net false d
  Shell.ofFault (syncRepo lookAt filename c as)

/-- `run()`: `config.query()`, then `config.sync()`, from no attribute
assigned; `none` when the answers or the rounds run out. -/
def run (lookAt : Option (List Char) → List Char → Bool → Except Fault Value) (fuel : Nat)
    (linux : Bool) (listSet : List Value → List Value)
    (summary : List Char → List (List Char) → Except Fault (List (List Char))) (net : Shell.Net)
    (filename : List Char) (rounds : Nat) (ans : List (Option Int)) (as : List Attempt) :
    Shell.Sh (Option SyncRun) := do
  match ← Shell.ofFault (query lookAt fuel linux listSet summary rounds Attrs.initial ans) with
  | none => pure none
  | some (c, _) => some <$> sync lookAt net filename c as

/-! ## What the cleanup removes -/

section Cleanup

variable {lookRoot : List Char → Except Fault Value} {p : List Char}

theorem mem_platformRemovals {rs : List Removal} :
    ∀ {dirs : List (List Char)}, platformRemovals lookRoot p dirs = .ok rs → ∀ r, r ∈ rs ↔
      ∃ d ∈ dirs, d ≠ "common".toList ∧ (∃ pdir, lookRoot (p ++ ".pdir".toList) = .ok pdir ∧
        strKey pdir ≠ some d) ∧ r = .rmdir ("build-scripts/platforms/".toList ++ d)
  | [], h, r => by
    cases h
    simp
  | d :: ds, h, r => by
    obtain ⟨r₀, h₀, h⟩ := bind_eq_ok.1 h
    obtain ⟨rs', hrs', rfl⟩ := map_eq_ok.1 h
    have hd : r ∈ r₀ ↔ d ≠ "common".toList ∧ (∃ pdir, lookRoot (p ++ ".pdir".toList) = .ok pdir ∧
        strKey pdir ≠ some d) ∧ r = .rmdir ("build-scripts/platforms/".toList ++ d) := by
      split_ifs at h₀ with hc
      · cases h₀
        exact iff_of_false (List.not_mem_nil r) fun h => h.1 hc
      · obtain ⟨pdir, hpdir, rfl⟩ := map_eq_ok.1 h₀
        split_ifs with hs
        · refine iff_of_false (List.not_mem_nil r) fun ⟨_, ⟨pdir', h', hne⟩, _⟩ => hne ?_
          rwa [← Except.ok.inj (hpdir.symm.trans h')]
        · rw [List.mem_singleton]
          exact ⟨fun h => ⟨hc, ⟨pdir, hpdir, hs⟩, h⟩, fun h => h.2.2⟩
    rw [List.mem_append, hd, mem_platformRemovals hrs', List.exists_mem_cons_iff]

theorem mem_scriptRemovals {preserve : Value} {files : List (List Char)} {r : Removal} :
    r ∈ scriptRemovals preserve files ↔
      ∃ f ∈ files, strKey preserve ≠ some f ∧ r = .rm ("build-scripts/filesystems/".toList ++ f) := by
  simp only [scriptRemovals, List.mem_map, List.mem_filter, bne_iff_ne, ne_eq]
  constructor
  · rintro ⟨f, ⟨hf, hne⟩, rfl⟩
    exact ⟨f, hf, hne, rfl⟩
  · rintro ⟨f, hf, hne, rfl⟩
    exact ⟨f, ⟨hf, hne⟩, rfl⟩

/-- **What the cleanup after the loop removes.** Every platform directory
but `common` and the platform's own (`pdir`), and every filesystem script
but the one the configuration builds. -/
theorem mem_cleanup {c : Attrs} {dirs files : List (List Char)} {rs : List Removal}
    (h : cleanup lookRoot p c dirs files = .ok rs) :
    ∃ key preserve, buildKey c = .ok key ∧ lookRoot key = .ok preserve ∧ ∀ r, r ∈ rs ↔
      (∃ d ∈ dirs, d ≠ "common".toList ∧ (∃ pdir, lookRoot (p ++ ".pdir".toList) = .ok pdir ∧
          strKey pdir ≠ some d) ∧ r = .rmdir ("build-scripts/platforms/".toList ++ d)) ∨
        ∃ f ∈ files, strKey preserve ≠ some f ∧ r = .rm ("build-scripts/filesystems/".toList ++ f) := by
  obtain ⟨rds, hrds, h⟩ := bind_eq_ok.1 h
  obtain ⟨preserve, hpreserve, h⟩ := bind_eq_ok.1 h
  obtain ⟨key, hkey, hpreserve⟩ := bind_eq_ok.1 hpreserve
  cases h
  refine ⟨key, preserve, hkey, hpreserve, fun r => ?_⟩
  rw [List.mem_append, mem_platformRemovals hrds, mem_scriptRemovals]

/-- **What a finished `config.sync()` removes.** When its loop breaks with
`dirs` and `files`, after the deps are fetched: every platform directory but
`common` and the platform's own (`dblu(p+".pdir")`), and every filesystem
script but the one the configuration builds. -/
theorem sync_removals {lookAt : Option (List Char) → List Char → Bool → Except Fault Value}
    {net : Shell.Net} {filename : List Char} {c : Attrs} {as : List Attempt} {h h' : Shell.Host}
    {r : SyncRun} (hs : sync lookAt net filename c as h = .ok (r, h'))
    {dirs files : List (List Char)} (hl : r.loop = some (.synced dirs files)) :
    ∃ p key preserve, metaOf c.p = .ok p ∧ buildKey c = .ok key ∧
      lookAt none key false = .ok preserve ∧ ∀ x, x ∈ r.removals ↔
        (∃ d ∈ dirs, d ≠ "common".toList ∧ (∃ pdir, lookAt none (p ++ ".pdir".toList) false = .ok pdir ∧
            strKey pdir ≠ some d) ∧ x = .rmdir ("build-scripts/platforms/".toList ++ d)) ∨
          ∃ f ∈ files, strKey preserve ≠ some f ∧ x = .rm ("build-scripts/filesystems/".toList ++ f) := by
  obtain ⟨_, _, -, hr⟩ := (Shell.bind_eq_ok _).1 hs
  replace hr := (Shell.ofFault_eq_ok.1 hr).1
  unfold syncRepo at hr
  split_ifs at hr
  · obtain ⟨p, hp, hr⟩ := bind_eq_ok.1 hr
    split at hr
    · obtain ⟨rs, hrs, hr⟩ := bind_eq_ok.1 hr
      obtain ⟨_, -, rfl⟩ := map_eq_ok.1 hr
      cases hl
      obtain ⟨key, preserve, hkey, hpreserve, hmem⟩ := mem_cleanup hrs
      exact ⟨p, key, preserve, hp, hkey, hpreserve, hmem⟩
    · next hne _ =>
      cases hr
      cases hl
      exact absurd rfl (hne _ _)
  · obtain ⟨_, -, rfl⟩ := map_eq_ok.1 hr
    cases hl

/-- The platform `p.b`, built from source with the kernel and the
filesystem `fs.y`, whose build script is `busybox.sh`; its directory is
`juno`. -/
def junoTable : List (List Char × Value) :=
  [("p.b.pdir".toList, strV "juno"), ("@.pdir".toList, strV "juno"), ("fs.y.script".toList, strV "busybox.sh")]

/-- What the user picked for `junoTable`, with a manifest and no deps. -/
def junoAttrs : Attrs :=
  ⟨some (.mk (strV "B") "p.b".toList .none false []), some (.mk (strV "bfs") "bfs".toList .none false []),
    some (.mk (strV "Linux") "k".toList .none false []), none,
    some (.mk (strV "Y") "fs.y".toList .none false []), none, none, ⟨[], [], strV "x.xml"⟩⟩

/-- A repo that syncs at once, with the platforms `common`, `juno` and
`tc2`, and the scripts `busybox.sh` and `oe.sh`. -/
def junoRun : List Attempt :=
  [⟨some (listing ["common", "juno", "tc2"] [] (by decide)),
    some (listing [] ["busybox.sh", "oe.sh"] (by decide)), false, listing [] [] (by decide)⟩]

theorem sync_removals_juno :
    ∃ r, sync (fun _ => tableLook junoTable) Shell.offlineNet [] junoAttrs junoRun Shell.fullHost =
        .ok (r, Shell.fullHost) ∧
      r.removals = [.rmdir "build-scripts/platforms/tc2".toList, .rm "build-scripts/filesystems/oe.sh".toList] ∧
      ∃ p key preserve, metaOf junoAttrs.p = .ok p ∧ buildKey junoAttrs = .ok key ∧
        tableLook junoTable key false = .ok preserve ∧ ∀ x, x ∈ r.removals ↔
          (∃ d ∈ ["common", "juno", "tc2"].map String.toList, d ≠ "common".toList ∧
              (∃ pdir, tableLook junoTable (p ++ ".pdir".toList) false = .ok pdir ∧ strKey pdir ≠ some d) ∧
              x = .rmdir ("build-scripts/platforms/".toList ++ d)) ∨
            ∃ f ∈ ["busybox.sh", "oe.sh"].map String.toList, strKey preserve ≠ some f ∧
              x = .rm ("build-scripts/filesystems/".toList ++ f) :=
  ⟨_, rfl, rfl, @sync_removals (fun _ => tableLook junoTable) Shell.offlineNet [] junoAttrs junoRun
    Shell.fullHost Shell.fullHost _ rfl _ _ rfl⟩

end Cleanup

/-! ## What `config.sync` reads -/

/-- `c'` assigns every attribute that `c` assigns, to the same choice, and
gathered the same. -/
structure Attrs.Extends (c' c : Attrs) : Prop where
  p : ∀ x, c.p = some x → c'.p = some x
  ws : ∀ x, c.ws = some x → c'.ws = some x
  env : ∀ x, c.env = some x → c'.env = some x
  k : ∀ x, c.k = some x → c'.k = some x
  fs : ∀ x, c.fs = some x → c'.fs = some x
  fw : ∀ x, c.fw = some x → c'.fw = some x
  pb : ∀ x, c.pb = some x → c'.pb = some x
  gathered : c'.gathered = c.gathered

section Reads

variable {lookAt : Option (List Char) → List Char → Bool → Except Fault Value} {filename : List Char}
  {as : List Attempt} {p : Choice} {picks : Picks} {g : Gathered}

theorem metaOf_of_some {o o' : Option Choice} (hx : ∀ x, o = some x → o' = some x) {m : List Char}
    (h : metaOf o = .ok m) : metaOf o' = .ok m := by
  cases o with
  | none => nomatch h
  | some x => rw [hx x rfl]; exact h

/-- A build script's key that `c` gives, every extension of `c` gives too. -/
theorem buildKey_extends {c c' : Attrs} (hx : c'.Extends c) {key : List Char}
    (h : buildKey c = .ok key) : buildKey c' = .ok key := by
  obtain ⟨env, henv, h⟩ := bind_eq_ok.1 h
  rw [buildKey, metaOf_of_some hx.env henv, ok_bind]
  split_ifs at h ⊢
  · obtain ⟨fs, hfs, rfl⟩ := map_eq_ok.1 h
    rw [metaOf_of_some hx.fs hfs]
    rfl
  · obtain ⟨fw, hfw, rfl⟩ := map_eq_ok.1 h
    rw [metaOf_of_some hx.fw hfw]
    rfl

/-- After a round that assigned the environment, and with it the filesystem
for a kernel or the firmware, the key of the build script is theirs,
whatever the attributes before the round. -/
theorem buildKey_assign {env : Choice} (henv : picks.env = some env)
    (hfs : env.meta = "k".toList → ∃ fs, picks.fs = some fs)
    (hfw : env.meta ≠ "k".toList → ∃ fw, picks.fw = some fw) :
    ∃ key, ∀ c : Attrs, buildKey (c.assign p picks g) = .ok key := by
  by_cases hk : env.meta = "k".toList
  · obtain ⟨fs, hfs⟩ := hfs hk
    exact ⟨fs.meta ++ ".script".toList, fun c => by
      simp only [buildKey, Attrs.assign, henv, hfs, Option.or_some, metaOf, ok_bind, if_pos hk]; rfl⟩
  · obtain ⟨fw, hfw⟩ := hfw hk
    exact ⟨fw.meta ++ ".stubfs".toList, fun c => by
      simp only [buildKey, Attrs.assign, henv, hfw, Option.or_some, metaOf, ok_bind, if_neg hk]; rfl⟩

theorem printOutput_congr {c c' : Attrs} (hp : c'.p = c.p) (hws : c'.ws = c.ws)
    (hkey : c.ws.map (·.meta) = some "bfs".toList → buildKey c' = buildKey c) :
    printOutput lookAt c' = printOutput lookAt c := by
  unfold printOutput
  rw [hp, hws]
  rcases hw : c.ws with _ | w
  · rfl
  · simp only [metaOf, ok_bind]
    split_ifs with hb
    · rw [hkey (by rw [hw, Option.map_some', hb])]
    · rfl

/-- **`config.sync` reads `config.p`, `config.ws`, what was gathered, and the
build script's key only with a manifest set or for a build from source.**
Two attributes that agree there make it do the same, against every host. -/
theorem sync_congr {c c' : Attrs} (hp : c'.p = c.p) (hws : c'.ws = c.ws) (hg : c'.gathered = c.gathered)
    (hkey : truthy c.gathered.manifest = true ∨ c.ws.map (·.meta) = some "bfs".toList →
      buildKey c' = buildKey c) (net : Shell.Net) :
    sync lookAt net filename c' as = sync lookAt net filename c as := by
  have hrepo : syncRepo lookAt filename c' as = syncRepo lookAt filename c as := by
    unfold syncRepo
    rw [hg, hp, printOutput_congr hp hws fun hb => hkey (.inr hb)]
    split_ifs with hm
    · simp only [cleanup, hkey (.inl hm)]
    · rfl
  unfold sync
  rw [hp, hg, hrepo]

/-- A round that starts with no manifest and ends with one set, or builds
from source, has assigned the build script's key. -/
theorem buildKey_of_round {look : List Char → Bool → Except Fault Value} {fuel : Nat}
    {lookRoot : List Char → Except Fault Value} {linux : Bool} {listSet : List Value → List Value}
    {q : List Char} {ans ans' : List (Option Int)} {g₀ : Gathered} (hg₀ : g₀.manifest = .none)
    (hr : chooseRound look fuel lookRoot linux listSet q ans g₀ = .ok (some (picks, ans', g)))
    (swcs : List (List Char)) :
    truthy g.manifest = true ∨ picks.ws.meta = "bfs".toList →
      ∃ key, ∀ c : Attrs, buildKey (c.assign p picks { g with swcs := swcs }) = .ok key := by
  intro hcond
  have hbfs : picks.ws.meta = "bfs".toList := by
    rcases hcond with hm | hb
    · exact bfs_of_manifest hg₀ hr fun h => by simp [h, truthy] at hm
    · exact hb
  obtain ⟨env, henv, hfs, hfw⟩ := picks_of_bfs hr hbfs
  exact buildKey_assign henv hfs hfw

end Reads

section Query

variable {lookAt : Option (List Char) → List Char → Bool → Except Fault Value} {fuel : Nat}
  {linux : Bool} {listSet : List Value → List Value}
  {summary : List Char → List (List Char) → Except Fault (List (List Char))}

/-- **`config.sync` does after `config.query` what it would do had the
accepted round been the first.** A declined round leaves `config.env`,
`config.k`, `config.fs`, `config.fw` and `config.pb` as it set them, and the
accepted one may not assign them again. The accepted round, run from any
other attributes with the same answers, is accepted too, and `config.sync`,
which fetches the deps against the host, does the same on what it assigns.
Nor does `config.sync` read an attribute that no round assigned: assigning
any of them changes nothing it does. -/
theorem sync_after_query {rounds : Nat} {c₀ c : Attrs} {ans ans' : List (Option Int)}
    (h : query lookAt fuel linux listSet summary rounds c₀ ans = .ok (some (c, ans'))) :
    ∃ c₁ ans₁, choose lookAt fuel linux listSet summary c₁ ans₁ = .ok (some (c, true, ans')) ∧
      (∀ c₂, ∃ c', choose lookAt fuel linux listSet summary c₂ ans₁ = .ok (some (c', true, ans')) ∧
        ∀ net filename as, sync lookAt net filename c' as = sync lookAt net filename c as) ∧
      ∀ c', c'.Extends c → ∀ net filename as, sync lookAt net filename c' as = sync lookAt net filename c as := by
  obtain ⟨c₁, ans₁, hc⟩ := query_last h
  obtain ⟨p, g₀, picks, ans₂, ans₃, g, swcs, hg₀, hr, rfl, hfrom⟩ := choose_from hc
  have hkey := buildKey_of_round (p := p) hg₀ hr swcs
  have hcond : ∀ c : Attrs, truthy g.manifest = true ∨ (c.assign p picks { g with swcs := swcs }).ws.map
      (·.meta) = some "bfs".toList → truthy g.manifest = true ∨ picks.ws.meta = "bfs".toList :=
    fun _ hc => hc.imp_right fun hb => Option.some.inj hb
  refine ⟨c₁, ans₁, hc, fun c₂ => ⟨_, hfrom c₂, fun net _ _ =>
      @sync_congr lookAt _ _ (c₁.assign p picks _) (c₂.assign p picks _) rfl rfl rfl (fun hr => ?_) net⟩,
    fun c' hx net _ _ => sync_congr (hx.p _ rfl) (hx.ws _ rfl) hx.gathered (fun hr => ?_) net⟩
  · obtain ⟨key, hk⟩ := hkey (hcond _ hr)
    rw [hk, hk]
  · obtain ⟨key, hk⟩ := hkey (hcond _ hr)
    rw [buildKey_extends hx (hk c₁), hk]

/-- The platform `p.b`, with the kernel `k.x`, the filesystem `fs.y` and the
prebuilt configuration `pb.u`. -/
def queryTable : List (List Char × Value) :=
  [("p.all".toList, strsV ["p.b"]), ("p.b.name".toList, strV "B"), ("p.b.k".toList, strsV ["k.x"]),
    ("p.b.fs".toList, strsV ["fs.y"]), ("p.b.pb".toList, strsV ["pb.u"]),
    ("k.name".toList, strV "Linux kernel"), ("k.x.name".toList, strV "X"),
    ("k.x.manifest".toList, strV "x.xml"), ("k.x.fs".toList, strsV ["fs.y"]),
    ("fs.y.name".toList, strV "Y"), ("pb.u.name".toList, strV "U")]

/-- The user builds `p.b` from source and declines, then takes its prebuilt
configuration and accepts: `config.env` keeps the kernel of the declined
round, which `config.sync` does not read. -/
theorem sync_after_query_twoRounds :
    ∃ c, query (fun _ => tableLook queryTable) 4 true firstSeen (fun _ swcs => .ok swcs) 2 Attrs.initial
        [some 1, some 2, some 2, some 1] = .ok (some (c, [])) ∧ c.env.isSome ∧
      ∃ c₁ ans₁, choose (fun _ => tableLook queryTable) 4 true firstSeen (fun _ swcs => .ok swcs) c₁ ans₁ =
          .ok (some (c, true, [])) ∧
        (∀ c₂, ∃ c', choose (fun _ => tableLook queryTable) 4 true firstSeen (fun _ swcs => .ok swcs) c₂ ans₁ =
            .ok (some (c', true, [])) ∧
          ∀ net filename as, sync (fun _ => tableLook queryTable) net filename c' as =
            sync (fun _ => tableLook queryTable) net filename c as) ∧
        ∀ c', c'.Extends c → ∀ net filename as, sync (fun _ => tableLook queryTable) net filename c' as =
          sync (fun _ => tableLook queryTable) net filename c as :=
  ⟨_, rfl, rfl, @sync_after_query (fun _ => tableLook queryTable) 4 true firstSeen
    (fun _ swcs => .ok swcs) 2 Attrs.initial _ [some 1, some 2, some 2, some 1] [] rfl⟩

end Query

end Config

end ArmPlat
