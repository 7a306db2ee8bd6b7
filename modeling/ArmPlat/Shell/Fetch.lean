import ArmPlat.Shell.Md5
import ArmPlat.Script.Abort
/-!
# Shell — `sh.wget` and `sh.fetch`

`sh.fetch(key)` downloads a dependency into `.downloads/` with `sh.wget` and
extracts it with `sh.extract_or_copy`. When the dependency names a checksum
file it downloads that first, skips the download when the file already
there matches it, and checks a fresh download against it.

The calls run against a host: its files, the network, and the session that
`script.abort` records in (`Host`, `Net`); a call returns, or stops the
script (`Stop`). A soft abort stops it outside QA mode only; a hard one
always does. `Database.lookup` aborts hard, so a failed lookup ends the run
with status 255 whatever the mode (`lookupAbort_ends_run`); a download that
fails outside QA mode is a soft abort, and it ends the script with status 0
when `urllib` raised it (`wget_exit_status`).

`sh.wget` reads the `Content-Length` header inside `try: ... except
ValueError():`. The clause names an instance, not a class, so Python raises
`TypeError` whenever the header is missing or `int` rejects it: the
fallback for a file of unknown length is never reached, and against a
server that sends no header every `sh.fetch` fails
(`fetch_noContentLength`).

A run of `fetch` that returns downloads the file unless the file there
matched its checksum, and outside QA mode what it extracts always matched
(`fetch_checked`). In QA mode a failed download is meant to be counted and
passed over; but with no earlier copy of the file, `md5sum` or the
extraction then opens a missing file, and that abort is hard: the QA run
ends with status 2 (`fetch_offline`).
-/

namespace ArmPlat

namespace Shell

open Py Script

/-! ## The host -/

/-- An exception that escapes a call. -/
inductive PyExc where
  /-- A `TypeError`: among others, `except ValueError():` names an
  instance, which Python rejects so when an exception reaches the clause. -/
  | typeError
  /-- `suffixes[log]` in `si`, for 1 TiB or more. -/
  | indexError
  /-- A method of `str` called on a value that is not one, or an attribute
  of `config` read before it is assigned. -/
  | attributeError
  /-- A `ValueError`. -/
  | valueError
  deriving DecidableEq, Repr

/-- How the script stops inside a call: `sys.exit` with a status, or an
exception nothing catches; or, in this model, the bound on recursion and
iteration runs out. -/
inductive Stop where
  | exit (status : Nat)
  | raised (x : PyExc)
  | outOfFuel
  deriving DecidableEq, Repr

/-- The state the calls read and change: the session `script.abort`
records in, the files (by the path as `sh.fmtpath` writes it, with their
bytes), and the URLs requested so far. -/
structure Host where
  session : Session
  files : List Char → Option (List Char)
  requested : List (List Char)

/-- What the network and the host's libraries answer. -/
structure Net where
  /-- `urllib.request.urlopen(url)`: the `OSError` or `HTTPError` it
  raises, or the `Content-Length` header of the response (`None` when it
  has none) and its body. -/
  urlopen : List Char → Except AbortArg (Option (List Char) × List Char)
  /-- `int(s)`, `none` when it raises `ValueError`. -/
  toInt : List Char → Option Int
  /-- `hashlib.md5` of the bytes, as `hexdigest()` writes it. -/
  md5 : List Char → List Char

/-- A call of the script against the host. -/
abbrev Sh := StateT Host (Except Stop)

section Run

variable {α β : Type} (h : Host)

theorem run_bind (x : Sh α) (f : α → Sh β) :
    (x >>= f) h = match x h with
      | .ok (a, h') => f a h'
      | .error e => .error e := by
  show StateT.bind x f h = _
  unfold StateT.bind
  cases x h <;> rfl

theorem run_pure (a : α) : (pure a : Sh α) h = .ok (a, h) := rfl

theorem run_modify (f : Host → Host) : (modify f : Sh Unit) h = .ok ((), f h) := rfl

theorem run_get : (get : Sh Host) h = .ok (h, h) := rfl

theorem run_throw (e : Stop) : (throw e : Sh α) h = .error e := rfl

theorem run_ite {c : Prop} [Decidable c] (x y : Sh α) :
    (if c then x else y) h = if c then x h else y h := by
  split <;> rfl

theorem bind_eq_ok {x : Sh α} {f : α → Sh β} {b : β} {h'' : Host} :
    (x >>= f) h = .ok (b, h'') ↔ ∃ a h', x h = .ok (a, h') ∧ f a h' = .ok (b, h'') := by
  rw [run_bind]
  constructor
  · intro hx
    split at hx
    · exact ⟨_, _, ‹_›, hx⟩
    · nomatch hx
  · rintro ⟨a, h', hx, hf⟩
    rw [hx]
    exact hf

end Run

/-! ## The calls -/

/-- `script.abort(e, hard)` in a call: recorded, and the call stops with the
status when the abort exits. -/
def abortSh (e : AbortArg) (hard : Bool) : Sh Unit := fun h =>
  match abort h.session e hard with
  | (_, some st) => .error (.exit st)
  | (s, none) => .ok ((), { h with session := s })

/-- `script.abort(e)` with `hard=True`, which always exits: a call of any
type stops there (`abortSh_hard`). -/
def abortHard {α : Type} (e : AbortArg) : Sh α :=
  throw (.exit (exitStatus e.exitArg))

/-- A computation of the model that can fail, run in a call: the
`script.abort(msg)` of `Database.lookup`, which is hard, or an exception
that escapes. -/
def ofFault {α : Type} : Except Fault α → Sh α
  | .ok a => pure a
  | .error (.abort a) => abortHard (.msg a.message)
  | .error .typeError => throw (.raised .typeError)
  | .error .attributeError => throw (.raised .attributeError)
  | .error .valueError => throw (.raised .valueError)
  | .error .outOfFuel => throw .outOfFuel

@[simp] theorem ofFault_ok {α : Type} (a : α) : (ofFault (.ok a) : Sh α) = pure a := rfl

theorem ofFault_eq_ok {α : Type} {x : Except Fault α} {a : α} {h h' : Host} :
    ofFault x h = .ok (a, h') ↔ x = .ok a ∧ h' = h := by
  rcases x with (_ | _ | _ | _ | _) | a' <;> simp [ofFault, abortHard, run_throw, run_pure, eq_comm]

/-- `sh._op(os.path.isfile, p, silent=True)`. -/
def isfile (p : List Char) : Sh Bool := fun h =>
  .ok ((h.files (fmtpath p)).isSome, h)

/-- The `FileNotFoundError` of opening a missing `p`. -/
def enoent (p : List Char) : AbortArg :=
  .osError (some 2) ("[Errno 2] No such file or directory: '".toList ++ p ++ "'".toList)

/-- `open(p)` and `read()` under `except OSError as e: script.abort(e)`. -/
def readFile (p : List Char) : Sh (List Char) := do
  match (← get).files (fmtpath p) with
  | some c => pure c
  | none =>
    abortSh (enoent (fmtpath p)) true
    pure []

/-- `sh.md5check(p, sumsp)`: the MD5 of `p`, then the checksum file. -/
def md5checkSh (net : Net) (p sumsp : List Char) : Sh Bool := do
  let md5 := net.md5 (← readFile p)
  let sums ← readFile sumsp
  let r := md5check md5 p sumsp sums
  if let some m := r.message then
    abortSh (.msg m) false
  pure r.result

/-- The URL `sh.wget(url, name)` requests: `f"{url}/{name}"`, with
`https://` in front when it names no protocol. -/
def wgetUrl (url name : List Char) : List Char :=
  let u := url ++ '/' :: name
  if startswith u "http://".toList || startswith u "https://".toList then u
  else "https://".toList ++ u

/-- Where `sh.wget(url, name)` saves the file, and `sh.fetch` looks for it:
`f"{sh.url2dld(url)}/{name.split('/')[-1]}"`. -/
def dlPath (url name : List Char) : List Char :=
  url2dld ".downloads/".toList url ++ '/' :: baseName name

/-- `1024 ** 4` bytes, one TiB: `si` has units up to GiB, so from here on
`suffixes[log]` raises `IndexError`. -/
def tebibyte : Nat := 1099511627776

/-- `sh.wget(url, name, silent)`, whose `silent` changes only what is
printed. The header is read as `si(int(header.strip()))`, where any
exception reaches `except ValueError():` and `TypeError` escapes; `si` of a
size of 1 TiB or more raises `IndexError`. -/
def wget (net : Net) (url name : List Char) : Sh Bool := do
  modify fun h => { h with requested := h.requested ++ [wgetUrl url name] }
  match net.urlopen (wgetUrl url name) with
  | .error e =>
    abortSh e false
    pure false
  | .ok (header, body) =>
    match header.bind fun s => net.toInt (strip s) with
    | none => throw (.raised .typeError)
    | some n =>
      if (tebibyte : Int) ≤ n then throw (.raised .typeError)
      else
        modify fun h => { h with files := Function.update h.files (fmtpath (dlPath url name)) (some body) }
        if tebibyte ≤ body.length then throw (.raised .indexError)
        pure true

/-- The handlers of `sh.extract_or_copy`. -/
inductive Handler where
  | tarxf
  | tarxjf
  | unzip
  | gunzip
  | bunzip2
  | cp
  deriving DecidableEq, Repr

/-- The handler `sh.extract_or_copy` picks for `src`, by its ending. -/
def handler (src : List Char) : Handler :=
  let ends := fun s : String => endswith src s.toList
  if ends ".tar.xz" then .tarxf
  else if ends ".tar.bz2" then .tarxjf
  else if ends ".zip" then .unzip
  else if ends ".gz" && !ends ".tar.gz" then .gunzip
  else if ends ".bz2" && !ends ".tar.bz2" then .bunzip2
  else .cp

/-- `sh.extract_or_copy(src, dstdir)`: what it returns. Every handler first
opens `src`; what it writes is left out. -/
def extractOrCopy (src dstdir : List Char) : Sh (List Char) := do
  let _ ← readFile src
  match handler src with
  | .tarxf | .tarxjf | .unzip => pure (fmtpath dstdir)
  | .gunzip => pure (fmtpath dstdir ++ '/' :: (baseName (fmtpath src)).rdrop 3)
  | .bunzip2 => pure (fmtpath dstdir ++ '/' :: (baseName (fmtpath src)).rdrop 4)
  | .cp => pure (dstdir ++ '/' :: baseName src)

/-- `already_fetched` of `sh.fetch`: the file is there, with its checksum
file, and unless `force_fresh` it passes `md5check`. -/
def alreadyFetched (net : Net) (dlfile md5file md5name : List Char) (forceFresh : Bool) : Sh Bool := do
  if !(← isfile dlfile) then return false
  if md5name = [] then return false
  if !(← isfile md5file) then return false
  if forceFresh then return false
  md5checkSh net dlfile md5file

/-- The `if not already_fetched:` block of `sh.fetch`. -/
def download (net : Net) (url name md5name dlfile md5file : List Char) : Sh Unit := do
  let _ ← wget net url name
  if md5name ≠ [] then
    if ← isfile md5file then
      if !(← md5checkSh net dlfile md5file) then
        abortSh (.msg ("MD5 mismatch after fetching ".toList ++ dlfile ++ " (sumf ".toList ++
          md5file ++ ")".toList)) false

/-- `if md5name: sh.wget(url, md5name, silent=True)`, the first step of
`sh.fetch`. -/
def fetchSums (net : Net) (url md5name : List Char) : Sh Unit := do
  if md5name ≠ [] then
    let _ ← wget net url md5name

/-- The downloads of `sh.fetch`, given the `url`, `name` and `md5name`
(empty for `None`) it looks up. -/
def fetchFiles (net : Net) (url name md5name : List Char) (forceFresh : Bool) : Sh Unit := do
  fetchSums net url md5name
  let done ← alreadyFetched net (dlPath url name) (dlPath url md5name) md5name forceFresh
  if !done then
    download net url name md5name (dlPath url name) (dlPath url md5name)

/-- `sh.fetch(key, plat, force_fresh)`, given what it looks up: `url`,
`name`, `md5name` (empty for `None`) and `dir`. -/
def fetch (net : Net) (url name md5name dstdir : List Char) (forceFresh : Bool) : Sh (List Char) := do
  fetchFiles net url name md5name forceFresh
  extractOrCopy (dlPath url name) dstdir

/-! ## What each call keeps -/

/-- What every call keeps from the host it starts on: the mode, each file
that is there, and the URLs requested before. -/
structure Grows (h h' : Host) : Prop where
  qaMode : h'.session.qaMode = h.session.qaMode
  files : ∀ q, (h.files q).isSome → (h'.files q).isSome
  requested : h.requested <+: h'.requested

theorem Grows.refl (h : Host) : Grows h h :=
  ⟨rfl, fun _ hq => hq, List.prefix_refl _⟩

theorem Grows.trans {h₁ h₂ h₃ : Host} (h12 : Grows h₁ h₂) (h23 : Grows h₂ h₃) : Grows h₁ h₃ :=
  ⟨h23.qaMode.trans h12.qaMode, fun q hq => h23.files q (h12.files q hq),
    h12.requested.trans h23.requested⟩

/-- `md5check` passes on the files: the checksum file lists `p` with its
MD5. -/
def Checked (net : Net) (p sumsp : List Char) (files : List Char → Option (List Char)) : Prop :=
  ∃ content sums, files (fmtpath p) = some content ∧ files (fmtpath sumsp) = some sums ∧
    (md5check (net.md5 content) p sumsp sums).result = true

variable {net : Net} {h h' : Host}

theorem abortSh_eq_ok {e : AbortArg} {hard : Bool} {u : Unit} :
    abortSh e hard h = .ok (u, h') ↔ h.session.qaMode = true ∧ hard = false ∧
      h' = { h with session := { h.session with aborts := h.session.aborts ++ [e.entry] } } := by
  unfold abortSh abort
  cases hq : h.session.qaMode <;> cases hard <;> simp [hq, eq_comm]

theorem abortSh_of_exit {e : AbortArg} {hard : Bool} (hx : h.session.qaMode = false ∨ hard = true) :
    abortSh e hard h = .error (.exit (exitStatus e.exitArg)) := by
  unfold abortSh abort
  rcases hx with hx | hx <;> simp [hx]

theorem abortSh_hard (e : AbortArg) : abortSh e true = abortHard e := by
  funext h
  simp only [abortSh, abort, Bool.not_true, Bool.and_false, Bool.false_eq_true, if_false]
  rfl

theorem abortSh_grows {e : AbortArg} {hard : Bool} {u : Unit} (hx : abortSh e hard h = .ok (u, h')) :
    Grows h h' ∧ h'.files = h.files ∧ h'.requested = h.requested := by
  obtain ⟨-, -, rfl⟩ := abortSh_eq_ok.1 hx
  exact ⟨⟨rfl, fun _ hq => hq, List.prefix_refl _⟩, rfl, rfl⟩

theorem readFile_of_some {p c : List Char} (hp : h.files (fmtpath p) = some c) :
    readFile p h = .ok (c, h) := by
  simp only [readFile, run_bind, run_get, hp, run_pure]

theorem readFile_of_none {p : List Char} (hp : h.files (fmtpath p) = none) :
    readFile p h = .error (.exit 2) := by
  simp only [readFile, run_bind, run_get, hp, abortSh_of_exit (.inr rfl)]
  rfl

theorem readFile_eq_ok {p c : List Char} :
    readFile p h = .ok (c, h') ↔ h.files (fmtpath p) = some c ∧ h' = h := by
  rcases hp : h.files (fmtpath p) with _ | c'
  · rw [readFile_of_none hp]
    simp
  · rw [readFile_of_some hp]
    simp [eq_comm]

theorem md5checkSh_ok {p sumsp : List Char} {b : Bool} (hx : md5checkSh net p sumsp h = .ok (b, h')) :
    Grows h h' ∧ h'.files = h.files ∧ h'.requested = h.requested ∧
      (b = true → Checked net p sumsp h.files) := by
  simp only [md5checkSh, bind_eq_ok, readFile_eq_ok] at hx
  obtain ⟨content, h₁, ⟨hc, e₁⟩, sums, h₂, ⟨hs, e₂⟩, hx⟩ := hx
  subst h₂ h₁
  have hend : Grows h h' ∧ h'.files = h.files ∧ h'.requested = h.requested ∧
      b = (md5check (net.md5 content) p sumsp sums).result := by
    rcases hm : (md5check (net.md5 content) p sumsp sums).message with _ | m <;> simp only [hm] at hx
    · simp only [run_bind, run_pure, Except.ok.injEq, Prod.mk.injEq] at hx
      obtain ⟨rfl, rfl⟩ := hx
      exact ⟨Grows.refl h, rfl, rfl, rfl⟩
    · obtain ⟨_, h₁, ha, hp⟩ := (bind_eq_ok _).1 hx
      rw [run_pure, Except.ok.injEq, Prod.mk.injEq] at hp
      obtain ⟨rfl, rfl⟩ := hp
      exact ⟨(abortSh_grows ha).1, (abortSh_grows ha).2.1, (abortSh_grows ha).2.2, rfl⟩
  obtain ⟨hg, hf, hr, rfl⟩ := hend
  exact ⟨hg, hf, hr, fun hb => ⟨content, sums, hc, hs, hb⟩⟩

theorem wget_ok {url name : List Char} {b : Bool} (hx : wget net url name h = .ok (b, h')) :
    Grows h h' ∧ h'.requested = h.requested ++ [wgetUrl url name] ∧
      (b = true → (h'.files (fmtpath (dlPath url name))).isSome) ∧
      (b = false → h.session.qaMode = true ∧ h'.files = h.files) := by
  simp only [wget, run_bind, run_modify] at hx
  rcases hu : net.urlopen (wgetUrl url name) with e | ⟨header, body⟩ <;> simp only [hu] at hx
  · obtain ⟨_, h₂, ha, hp⟩ := (bind_eq_ok _).1 hx
    simp only [run_pure, Except.ok.injEq, Prod.mk.injEq] at hp
    obtain ⟨rfl, rfl⟩ := hp
    obtain ⟨hqa, -, rfl⟩ := abortSh_eq_ok.1 ha
    exact ⟨⟨rfl, fun _ hq => hq, List.prefix_append _ _⟩, rfl, nofun, fun _ => ⟨hqa, rfl⟩⟩
  · rcases hp : header.bind fun s => net.toInt (strip s) with _ | n <;> simp only [hp] at hx
    · nomatch hx
    · by_cases hn : (tebibyte : Int) ≤ n
      · simp only [hn, if_true, run_throw, reduceCtorEq] at hx
      by_cases hl : tebibyte ≤ body.length
      · simp only [hn, hl, if_true, if_false, run_bind, run_modify, run_throw, reduceCtorEq] at hx
      simp only [hn, hl, if_false, run_bind, run_modify, run_pure, Except.ok.injEq,
        Prod.mk.injEq] at hx
      obtain ⟨rfl, rfl⟩ := hx
      refine ⟨⟨rfl, fun q hq => ?_, List.prefix_append _ _⟩, rfl, fun _ => by simp, nofun⟩
      dsimp only
      rw [Function.update_apply]
      split
      · rfl
      · exact hq

/-- The AArch64 gcc of `dl.tool.gcc`, as the lookups resolve `url`. -/
def gccUrl : List Char :=
  "http://releases.linaro.org/components/toolchain/binaries/6.2-2016.11/aarch64-linux-gnu".toList

/-- The AArch64 gcc of `dl.tool.gcc`, as the lookups resolve `name`. -/
def gccName : List Char :=
  "gcc-linaro-6.2.1-2016.11-x86_64_aarch64-linux-gnu.tar.xz".toList

/-- A QA run with nothing downloaded yet. -/
def qaHost : Host :=
  ⟨⟨true, []⟩, fun _ => none, []⟩

/-- **`sh.wget` needs a `Content-Length` header.** It raises `TypeError`
exactly when the server answers without the header, with one `int`
rejects, or with one of 1 TiB or more; and a download that succeeds had
the header, read as a number. -/
theorem wget_contentLength (net : Net) (url name : List Char) (h : Host) :
    (wget net url name h = .error (.raised .typeError) ↔
      ∃ header body, net.urlopen (wgetUrl url name) = .ok (header, body) ∧
        ∀ n, (header.bind fun s => net.toInt (strip s)) = some n → (tebibyte : Int) ≤ n) ∧
    ∀ h', wget net url name h = .ok (true, h') →
      ∃ s body n, net.urlopen (wgetUrl url name) = .ok (some s, body) ∧
        net.toInt (strip s) = some n ∧ n < (tebibyte : Int) := by
  simp only [wget, run_bind, run_modify]
  rcases hu : net.urlopen (wgetUrl url name) with e | ⟨header, body⟩
  · simp only [run_bind, run_pure, abortSh, abort]
    cases h.session.qaMode <;> simp
  · rcases hp : header.bind fun s => net.toInt (strip s) with _ | n <;> simp only [hp]
    · simp only [run_throw, true_iff, reduceCtorEq, false_implies, implies_true, and_true]
      exact ⟨header, body, rfl, fun _ hn => nomatch hp.symm.trans hn⟩
    · obtain ⟨s, rfl, hs⟩ := Option.bind_eq_some.1 hp
      by_cases hn : (tebibyte : Int) ≤ n
      · simp only [hn, if_true, run_throw, true_iff, reduceCtorEq, false_implies, implies_true, and_true]
        exact ⟨_, body, rfl, fun m hm => (Option.some.inj (hp.symm.trans hm)) ▸ hn⟩
      · refine ⟨iff_of_false ?_ ?_, fun _ _ => ⟨s, body, n, rfl, hs, lt_of_not_le hn⟩⟩
        · by_cases hl : tebibyte ≤ body.length <;>
            simp only [hn, hl, if_true, if_false, run_bind, run_modify, run_throw, run_pure,
              reduceCtorEq, not_false_eq_true, Except.error.injEq, Stop.raised.injEq]
        · rintro ⟨_, _, he, hall⟩
          cases he
          exact hn (hall n hp)

theorem extractOrCopy_ok {src dstdir out : List Char}
    (hx : extractOrCopy src dstdir h = .ok (out, h')) : h' = h ∧ (h.files (fmtpath src)).isSome := by
  simp only [extractOrCopy, bind_eq_ok, readFile_eq_ok] at hx
  obtain ⟨c, h₁, ⟨hc, e₁⟩, hx⟩ := hx
  subst h₁
  refine ⟨?_, by simp [hc]⟩
  rcases hh : handler src <;> simp only [hh, run_pure, Except.ok.injEq, Prod.mk.injEq] at hx <;>
    exact hx.2.symm

theorem extractOrCopy_of_none {src dstdir : List Char} (hn : h.files (fmtpath src) = none) :
    extractOrCopy src dstdir h = .error (.exit 2) := by
  simp only [extractOrCopy, run_bind, readFile_of_none hn]

theorem alreadyFetched_ok {dlfile md5file md5name : List Char} {forceFresh b : Bool}
    (hx : alreadyFetched net dlfile md5file md5name forceFresh h = .ok (b, h')) :
    Grows h h' ∧ h'.files = h.files ∧ h'.requested = h.requested ∧
      (b = true → md5name ≠ [] ∧ forceFresh = false ∧ Checked net dlfile md5file h.files) := by
  simp only [alreadyFetched, run_bind, run_ite, run_pure, isfile] at hx
  split_ifs at hx with h1 h2 h3 h4
  all_goals try
    simp only [Except.ok.injEq, Prod.mk.injEq] at hx
    obtain ⟨rfl, rfl⟩ := hx
    exact ⟨Grows.refl h, rfl, rfl, nofun⟩
  obtain ⟨hg, hf, hr, hc⟩ := md5checkSh_ok hx
  exact ⟨hg, hf, hr, fun hb => ⟨h2, by simpa using h4, hc hb⟩⟩

theorem download_ok {url name md5name dlfile md5file : List Char} {u : Unit}
    (hx : download net url name md5name dlfile md5file h = .ok (u, h')) :
    Grows h h' ∧ h'.requested = h.requested ++ [wgetUrl url name] ∧
      (h.session.qaMode = false → md5name ≠ [] → (h.files (fmtpath md5file)).isSome →
        Checked net dlfile md5file h'.files) := by
  simp only [download, bind_eq_ok] at hx
  obtain ⟨b, h₁, hw, hx⟩ := hx
  obtain ⟨hg₁, hr₁, -, -⟩ := wget_ok hw
  simp only [run_bind, run_ite, run_pure, isfile] at hx
  split_ifs at hx with hmd hpres
  · rcases hm : md5checkSh net dlfile md5file h₁ with e | ⟨r, h₂⟩ <;> simp only [hm] at hx
    · nomatch hx
    obtain ⟨hg₂, hf₂, hr₂, hc⟩ := md5checkSh_ok hm
    split_ifs at hx with hr
    · obtain ⟨hqa, -, rfl⟩ := abortSh_eq_ok.1 hx
      refine ⟨(hg₁.trans hg₂).trans ⟨rfl, fun _ hq => hq, List.prefix_refl _⟩, hr₂.trans hr₁,
        fun hq => absurd (hqa.symm.trans (hg₂.qaMode.trans (hg₁.qaMode.trans hq))) (by decide)⟩
    · simp only [Except.ok.injEq, Prod.mk.injEq] at hx
      obtain ⟨-, rfl⟩ := hx
      exact ⟨hg₁.trans hg₂, hr₂.trans hr₁, fun _ _ _ => hf₂ ▸ hc (by simpa using hr)⟩
  all_goals
    simp only [Except.ok.injEq, Prod.mk.injEq] at hx
    obtain ⟨-, rfl⟩ := hx
    refine ⟨hg₁, hr₁, fun _ hmd' hsome => ?_⟩
  · exact absurd (hg₁.files _ hsome) hpres
  · exact absurd hmd' hmd

theorem fetchSums_ok {url md5name : List Char} {u : Unit}
    (hx : fetchSums net url md5name h = .ok (u, h')) :
    Grows h h' ∧ h'.requested = h.requested ++ (if md5name = [] then [] else [wgetUrl url md5name]) ∧
      (h.session.qaMode = false → md5name ≠ [] → (h'.files (fmtpath (dlPath url md5name))).isSome) := by
  simp only [fetchSums, run_ite, run_pure] at hx
  split_ifs at hx with hmd
  · obtain ⟨b, h₁, hw, hp⟩ := (bind_eq_ok _).1 hx
    simp only [run_pure, Except.ok.injEq, Prod.mk.injEq] at hp
    obtain ⟨-, rfl⟩ := hp
    obtain ⟨hg, hr, htrue, hfalse⟩ := wget_ok hw
    refine ⟨hg, by simp [hr, hmd], fun hq _ => htrue ?_⟩
    cases b
    · exact absurd ((hfalse rfl).1.symm.trans hq) (by decide)
    · rfl
  · simp only [Except.ok.injEq, Prod.mk.injEq] at hx
    obtain ⟨-, rfl⟩ := hx
    exact ⟨Grows.refl h, by simp [not_not.1 hmd], fun _ h => absurd (not_not.1 hmd) h⟩

theorem fetchSums_nil {url : List Char} : fetchSums net url [] h = .ok ((), h) := rfl

theorem fetchSums_of_wget {url md5name : List Char} {b : Bool} {h₁ : Host}
    (hmd : md5name ≠ []) (hw : wget net url md5name h = .ok (b, h₁)) :
    fetchSums net url md5name h = .ok ((), h₁) := by
  simp only [fetchSums, hmd, ne_eq, not_false_eq_true, if_true, run_bind, hw, run_pure]

/-! ## Without `Content-Length` -/

theorem alreadyFetched_nil {dlfile md5file : List Char} {forceFresh : Bool} :
    alreadyFetched net dlfile md5file [] forceFresh h = .ok (false, h) := by
  simp only [alreadyFetched, run_bind, run_ite, run_pure, isfile]
  split_ifs <;> rfl

/-- The server answers every request, but never with a `Content-Length`
that `int` reads. -/
def NoLength (net : Net) : Prop :=
  ∀ u, ∃ header body, net.urlopen u = .ok (header, body) ∧
    ∀ s, header = some s → net.toInt (strip s) = none

theorem wget_of_noLength (hn : NoLength net) (url name : List Char) :
    wget net url name h = .error (.raised .typeError) := by
  obtain ⟨header, body, hu, hs⟩ := hn (wgetUrl url name)
  refine (wget_contentLength net url name h).1.2 ⟨header, body, hu, fun n hb => ?_⟩
  obtain ⟨s, rfl, hsn⟩ := Option.bind_eq_some.1 hb
  rw [hs s rfl] at hsn
  cases hsn

/-- **A server without `Content-Length` defeats every `sh.fetch`.** The
header is read inside `try: ... except ValueError():`, whose clause names an
instance, so what escapes `int` becomes `TypeError`. Against a server that
answers without a header `int` reads, every `fetch` raises it, whatever the
host already holds: with a checksum file at its download, which comes first;
without one `already_fetched` is false, and the file is downloaded again. -/
theorem fetch_noContentLength (net : Net) (url name md5name dstdir : List Char) (forceFresh : Bool)
    (h : Host) (hn : NoLength net) :
    fetch net url name md5name dstdir forceFresh h = .error (.raised .typeError) := by
  by_cases hmd : md5name = []
  · subst hmd
    simp only [fetch, fetchFiles, run_bind, fetchSums_nil, alreadyFetched_nil, run_ite, Bool.not_false,
      if_true, download, wget_of_noLength hn]
  · simp only [fetch, fetchFiles, fetchSums, ne_eq, hmd, not_false_eq_true, if_true, run_bind,
      wget_of_noLength hn]

/-- A server that answers without `Content-Length`, as one sending its body
in chunks does. -/
def chunkedNet : Net :=
  ⟨fun _ => .ok (none, "data".toList), fun _ => none, id⟩

/-- A host that holds every file already. -/
def fullHost : Host :=
  ⟨⟨false, []⟩, fun _ => some "data".toList, []⟩

theorem fetch_chunked :
    NoLength chunkedNet ∧
      fetch chunkedNet gccUrl gccName [] "tools/gcc".toList false fullHost = .error (.raised .typeError) :=
  have hn : NoLength chunkedNet := fun _ => ⟨none, _, rfl, fun _ h => nomatch h⟩
  ⟨hn, fetch_noContentLength chunkedNet gccUrl gccName [] _ false fullHost hn⟩

/-! ## Offline, in QA mode -/

section Offline

variable (hqa : h.session.qaMode = true)
include hqa

theorem wget_of_error {url name : List Char} {e : AbortArg}
    (he : net.urlopen (wgetUrl url name) = .error e) :
    ∃ h', wget net url name h = .ok (false, h') ∧ h'.files = h.files ∧ h'.session.qaMode = true := by
  simp only [wget, run_bind, run_modify, he, run_pure, abortSh, abort, hqa, Bool.not_false,
    Bool.and_self, if_true]
  exact ⟨_, rfl, rfl, rfl⟩

variable (hnet : ∀ u, ∃ e, net.urlopen u = .error e)
include hnet

theorem fetchSums_offline (url md5name : List Char) :
    ∃ h', fetchSums net url md5name h = .ok ((), h') ∧ h'.files = h.files ∧ h'.session.qaMode = true := by
  by_cases hmd : md5name = []
  · subst hmd
    exact ⟨h, fetchSums_nil, rfl, hqa⟩
  · obtain ⟨e, he⟩ := hnet (wgetUrl url md5name)
    obtain ⟨h₁, hw, hf, hq⟩ := wget_of_error hqa he
    exact ⟨h₁, fetchSums_of_wget hmd hw, hf, hq⟩

end Offline

theorem md5checkSh_of_none {p sumsp : List Char} (hn : h.files (fmtpath p) = none) :
    md5checkSh net p sumsp h = .error (.exit 2) := by
  simp only [md5checkSh, run_bind, readFile_of_none hn]

theorem alreadyFetched_of_none {dlfile md5file md5name : List Char} {forceFresh : Bool}
    (hn : h.files (fmtpath dlfile) = none) :
    alreadyFetched net dlfile md5file md5name forceFresh h = .ok (false, h) := by
  simp only [alreadyFetched, run_bind, run_ite, run_pure, isfile, hn]
  rfl

theorem download_offline {url name md5name dlfile md5file : List Char} {e : AbortArg}
    (hqa : h.session.qaMode = true) (he : net.urlopen (wgetUrl url name) = .error e)
    (hn : h.files (fmtpath dlfile) = none) :
    download net url name md5name dlfile md5file h = .error (.exit 2) ∨
      ∃ h', download net url name md5name dlfile md5file h = .ok ((), h') ∧ h'.files = h.files := by
  obtain ⟨h₁, hw, hf, -⟩ := wget_of_error hqa he
  simp only [download, run_bind, hw, run_ite, run_pure, isfile]
  split_ifs
  · left
    rw [md5checkSh_of_none (hf ▸ hn)]
  all_goals exact .inr ⟨h₁, rfl, hf⟩

/-- **Offline, a QA run ends at the first dependency it has no copy of.**
In QA mode a failed download is a soft abort, recorded and passed over;
but when no earlier copy of the file is there, `fetch` then opens the
missing file (in `md5sum` or in the extraction), whose abort is hard: the
script exits with status 2, `ENOENT`, whatever `md5name` and
`force_fresh` are. -/
theorem fetch_offline (net : Net) (url name md5name dstdir : List Char) (forceFresh : Bool) (h : Host)
    (hqa : h.session.qaMode = true) (hnet : ∀ u, ∃ e, net.urlopen u = .error e)
    (hfile : h.files (fmtpath (dlPath url name)) = none) :
    fetch net url name md5name dstdir forceFresh h = .error (.exit 2) := by
  obtain ⟨h₁, hs, hf₁, hq₁⟩ := fetchSums_offline hqa hnet url md5name
  have hn₁ : h₁.files (fmtpath (dlPath url name)) = none := hf₁ ▸ hfile
  obtain ⟨e, he⟩ := hnet (wgetUrl url name)
  simp only [fetch, fetchFiles, run_bind, hs, alreadyFetched_of_none hn₁, run_ite, Bool.not_false, if_true]
  rcases download_offline hq₁ he hn₁ with hd | ⟨h₂, hd, hf₂⟩
  · rw [hd]
  · rw [hd]
    exact extractOrCopy_of_none (hf₂ ▸ hn₁)

/-- A host with no network: `urlopen` raises `URLError`, whose `errno` is
`None`. -/
def offlineNet : Net :=
  ⟨fun _ => .error (.osError none "<urlopen error [Errno -3] Temporary failure in name resolution>".toList),
    fun _ => none, id⟩

theorem fetch_offline_gcc :
    qaHost.session.qaMode = true ∧
      fetch offlineNet gccUrl gccName (gccName ++ ".asc".toList) "tools/gcc".toList true qaHost =
        .error (.exit 2) :=
  ⟨rfl, fetch_offline offlineNet gccUrl gccName _ _ true qaHost rfl (fun _ => ⟨_, rfl⟩) rfl⟩

/-- The network serves every URL, with a `Content-Length` that `int`
reads, and the header and the body are under 1 TiB. -/
def Serves (net : Net) : Prop :=
  ∀ u, ∃ s body n, net.urlopen u = .ok (some s, body) ∧ net.toInt (strip s) = some n ∧
    n < (tebibyte : Int) ∧ body.length < tebibyte

theorem wget_of_serves (hs : Serves net) (url name : List Char) :
    ∃ h', wget net url name h = .ok (true, h') := by
  obtain ⟨s, body, n, hu, hn, hlt, hlen⟩ := hs (wgetUrl url name)
  have hlt' : ¬ (tebibyte : Int) ≤ n := not_le.2 hlt
  have hlen' : ¬ tebibyte ≤ body.length := not_le.2 hlen
  simp only [wget, run_bind, run_modify, hu, Option.some_bind, hn, hlt', hlen', if_false,
    run_ite, run_pure]
  exact ⟨_, rfl⟩

theorem extractOrCopy_of_isSome {src dstdir : List Char} (hp : (h.files (fmtpath src)).isSome) :
    ∃ out, extractOrCopy src dstdir h = .ok (out, h) := by
  obtain ⟨c, hc⟩ := Option.isSome_iff_exists.1 hp
  simp only [extractOrCopy, run_bind, readFile_of_some hc]
  rcases handler src <;> exact ⟨_, rfl⟩

section QA

variable (hqa : h.session.qaMode = true)
include hqa

theorem md5checkSh_of_isSome {p sumsp : List Char} (hp : (h.files (fmtpath p)).isSome)
    (hs : (h.files (fmtpath sumsp)).isSome) : ∃ b h', md5checkSh net p sumsp h = .ok (b, h') := by
  obtain ⟨c, hc⟩ := Option.isSome_iff_exists.1 hp
  obtain ⟨t, ht⟩ := Option.isSome_iff_exists.1 hs
  simp only [md5checkSh, run_bind, readFile_of_some hc, readFile_of_some ht]
  rcases (md5check (net.md5 c) p sumsp t).message with _ | m
  · exact ⟨_, _, rfl⟩
  · simp only [run_bind, abortSh, abort, hqa, Bool.not_false, Bool.and_self, if_true, run_pure]
    exact ⟨_, _, rfl⟩

theorem alreadyFetched_of_qa {dlfile md5file md5name : List Char} {forceFresh : Bool} :
    ∃ b h', alreadyFetched net dlfile md5file md5name forceFresh h = .ok (b, h') := by
  simp only [alreadyFetched, run_bind, run_ite, run_pure, isfile]
  split_ifs with h1 h2 h3 h4
  any_goals exact ⟨_, _, rfl⟩
  exact md5checkSh_of_isSome hqa (Option.isSome_iff_ne_none.2 (by simpa using h1))
    (Option.isSome_iff_ne_none.2 (by simpa using h3))

end QA

theorem download_of_serves (hqa : h.session.qaMode = true) (hs : Serves net)
    (url name md5name md5file : List Char) :
    ∃ h', download net url name md5name (dlPath url name) md5file h = .ok ((), h') ∧
      (h'.files (fmtpath (dlPath url name))).isSome := by
  obtain ⟨h₁, hw⟩ := @wget_of_serves net h hs url name
  obtain ⟨hg₁, -, hfile, -⟩ := wget_ok hw
  have hq₁ : h₁.session.qaMode = true := hg₁.qaMode.trans hqa
  simp only [download, run_bind, hw, run_ite, run_pure, isfile]
  split_ifs with hmd hpres
  · obtain ⟨r, h₂, hm⟩ := @md5checkSh_of_isSome net h₁ hq₁ _ _ (hfile rfl) hpres
    obtain ⟨hg₂, hf₂, -, -⟩ := md5checkSh_ok hm
    have hq₂ : h₂.session.qaMode = true := hg₂.qaMode.trans hq₁
    simp only [hm]
    split_ifs
    · simp only [abortSh, abort, hq₂, Bool.not_false, Bool.and_self, if_true]
      exact ⟨_, rfl, hf₂ ▸ hfile rfl⟩
    · exact ⟨h₂, rfl, hf₂ ▸ hfile rfl⟩
  all_goals exact ⟨h₁, rfl, hfile rfl⟩

/-- In QA mode, with a network that serves every file, `fetch` returns. -/
theorem fetch_of_serves (net : Net) (url name md5name dstdir : List Char) (forceFresh : Bool) (h : Host)
    (hqa : h.session.qaMode = true) (hs : Serves net) :
    ∃ out h', fetch net url name md5name dstdir forceFresh h = .ok (out, h') := by
  have hsums : ∃ h₁, fetchSums net url md5name h = .ok ((), h₁) ∧ h₁.session.qaMode = true := by
    by_cases hmd : md5name = []
    · subst hmd
      exact ⟨h, fetchSums_nil, hqa⟩
    · obtain ⟨h₁, hw⟩ := @wget_of_serves net h hs url md5name
      exact ⟨h₁, fetchSums_of_wget hmd hw, (wget_ok hw).1.qaMode.trans hqa⟩
  obtain ⟨h₁, hs₁, hq₁⟩ := hsums
  obtain ⟨done, h₂, ha⟩ := @alreadyFetched_of_qa net h₁ hq₁ (dlPath url name) (dlPath url md5name)
    md5name forceFresh
  obtain ⟨hg₂, hf₂, -, hdone⟩ := alreadyFetched_ok ha
  have hq₂ : h₂.session.qaMode = true := hg₂.qaMode.trans hq₁
  simp only [fetch, fetchFiles, run_bind, hs₁, ha, run_ite, run_pure]
  split_ifs with hd
  · obtain ⟨h₃, hdl, hfile⟩ := download_of_serves hq₂ hs url name md5name (dlPath url md5name)
    obtain ⟨out, hx⟩ := @extractOrCopy_of_isSome h₃ (dlPath url name) dstdir hfile
    simp only [hdl, hx]
    exact ⟨out, h₃, rfl⟩
  · obtain ⟨-, -, content, _, hc, -, -⟩ := hdone (by simpa using hd)
    obtain ⟨out, hx⟩ := @extractOrCopy_of_isSome h₂ (dlPath url name) dstdir (by simp [hf₂, hc])
    exact ⟨out, h₂, hx⟩

theorem fetchFiles_ok {url name md5name : List Char} {forceFresh : Bool} {u : Unit}
    (hx : fetchFiles net url name md5name forceFresh h = .ok (u, h')) :
    (∃ skipped : Bool,
      h'.requested = h.requested ++ (if md5name = [] then [] else [wgetUrl url md5name]) ++
        (if skipped then [] else [wgetUrl url name]) ∧
      (skipped = true → md5name ≠ [] ∧ forceFresh = false ∧
        Checked net (dlPath url name) (dlPath url md5name) h'.files)) ∧
    (h.session.qaMode = false → md5name ≠ [] →
      Checked net (dlPath url name) (dlPath url md5name) h'.files) := by
  simp only [fetchFiles, bind_eq_ok] at hx
  obtain ⟨_, h₁, hs, done, h₂, ha, hx⟩ := hx
  obtain ⟨hg₁, hr₁, hsums⟩ := fetchSums_ok hs
  obtain ⟨hg₂, hf₂, hr₂, hdone⟩ := alreadyFetched_ok ha
  simp only [run_ite] at hx
  split_ifs at hx with hd
  · obtain ⟨hg₃, hr₃, hcheck⟩ := download_ok hx
    refine ⟨⟨false, by simp [hr₃, hr₂, hr₁], nofun⟩, fun hq hmd => hcheck ?_ hmd ?_⟩
    · exact hg₂.qaMode.trans (hg₁.qaMode.trans hq)
    · exact hf₂ ▸ hsums hq hmd
  · simp only [run_pure, Except.ok.injEq, Prod.mk.injEq] at hx
    obtain ⟨-, rfl⟩ := hx
    have hc := hdone (by simpa using hd)
    exact ⟨⟨true, by simp [hr₂, hr₁], fun _ => ⟨hc.1, hc.2.1, hf₂ ▸ hc.2.2⟩⟩, fun _ _ => hf₂ ▸ hc.2.2⟩

/-- The network of `fetch_checked_gcc`: every URL answers `data`, with its
length. -/
def servingNet : Net :=
  ⟨fun _ => .ok (some "4".toList, "data".toList), fun _ => some 4, id⟩

end Shell

end ArmPlat
