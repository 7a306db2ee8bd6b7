import ArmPlat.Menu.Tree
/-!
# Choosing a platform — `_choose_p`, `prompt` and `tree_prompt`

`config._choose_p` builds the platform menu with `choice.tree`, and its
`crawl` then disables, children first, each node with children none of
which is enabled, and, off Linux, each node whose `pb` lookup counts no
prebuilt configuration. What it leaves at every node is `Sound`
(`crawl_sound`).

`prompt` first lays out its lines: an empty menu raises `ValueError`, and a
name that is not a `str` raises `TypeError` (`promptLines_cons`). Its loop
then accepts the first answer in range that names an enabled choice
(`promptLoop_eq_some_iff`), and never returns while there is none
(`promptLoop_eq_none_iff`). `tree_prompt` walks from the root to a leaf, into
the only child without asking (after a warning that adds its name to a
`str`) and otherwise into the child `prompt` accepts. What it can return
is exactly what the relational model `Prompted` allows
(`treePrompt_iff_prompted`).

From an enabled root of a crawled menu the walk ends at an enabled leaf,
which off Linux has prebuilt configurations, and when the names are `str`s
some answers reach one (`choose_platform`). The root's being enabled is what
this rests on: a disabled only child is taken without asking, and among
disabled children no answer is ever accepted (`treePrompt_all_disabled`).
-/

namespace ArmPlat

namespace Menu

open Database

/-- `len(pbs) if pbs else 0`. -/
def lenIfTruthy : Value → Except Fault Nat
  | .none => .ok 0
  | .true => .error .typeError
  | .node (.str s) => .ok s.length
  | .node (.int n) => if n = 0 then .ok 0 else .error .typeError
  | .node (.list xs) => .ok xs.length
  | .node (.dict kvs) => .ok (kvs.map Prod.fst).dedup.length

/-- The `descr` that `crawl` gives a node it disables. -/
def disabledDescr : Value :=
  .node (.str "can only build from source for this platform, which requires a Linux host PC".toList)

namespace ChooseP

mutual

/-- `crawl(root)` of `config._choose_p`: the children first, then
`dblu(root.meta+".pb", noneAllowed=True)`, as `look k noneAllowed`; the node
is disabled when it has children and none is enabled, or when it counts no
prebuilt configuration and `linux`, `HOST=="Linux"`, is false. -/
def crawl (linux : Bool) (look : List Char → Bool → Except Fault Value) :
    Choice → Except Fault Choice
  | .mk name meta descr disabled children =>
    crawlAll linux look children >>= fun children =>
      (look (meta ++ ".pb".toList) true >>= lenIfTruthy) >>= fun numPbs =>
        if (!children.isEmpty && children.countP (fun c => !c.disabled) == 0) ||
            (numPbs == 0 && !linux) then
          .ok (.mk name meta disabledDescr true children)
        else .ok (.mk name meta descr disabled children)

/-- `[crawl(c) for c in root.children]`. -/
def crawlAll (linux : Bool) (look : List Char → Bool → Except Fault Value) :
    List Choice → Except Fault (List Choice)
  | [] => .ok []
  | c :: cs => crawl linux look c >>= fun c => crawlAll linux look cs >>= fun cs => .ok (c :: cs)

end

end ChooseP

/-- The `pb` lookup of `meta` counts at least one prebuilt configuration. -/
def HasPrebuilts (look : List Char → Bool → Except Fault Value) (meta : List Char) : Prop :=
  ∃ v n, look (meta ++ ".pb".toList) true = .ok v ∧ lenIfTruthy v = .ok n ∧ 0 < n

/-- **What `crawl` leaves at every node**: an enabled node with children has
an enabled child, and, off Linux, prebuilt configurations. -/
inductive Sound (linux : Bool) (look : List Char → Bool → Except Fault Value) : Choice → Prop
  | mk {name : Value} {meta : List Char} {descr : Value} {disabled : Bool} {children : List Choice} :
      (∀ c ∈ children, Sound linux look c) →
      (disabled = false → children ≠ [] → ∃ c ∈ children, c.disabled = false) →
      (disabled = false → linux = false → HasPrebuilts look meta) →
      Sound linux look (.mk name meta descr disabled children)

/-! ## The crawl -/

section Crawl

variable {linux : Bool} {look : List Char → Bool → Except Fault Value}

theorem exists_enabled_of_countP {cs : List Choice} (h : cs.countP (fun c => !c.disabled) ≠ 0) :
    ∃ c ∈ cs, c.disabled = false := by
  obtain ⟨c, hc, hd⟩ := List.countP_pos_iff.1 (Nat.pos_of_ne_zero h)
  exact ⟨c, hc, by simpa using hd⟩

mutual

/-- Every node `crawl` returns is `Sound`. -/
theorem crawl_sound : ∀ {t t' : Choice}, ChooseP.crawl linux look t = .ok t' → Sound linux look t'
  | .mk name meta descr disabled children, t', h => by
    rw [ChooseP.crawl] at h
    obtain ⟨cs, hcs, h⟩ := bind_eq_ok.1 h
    obtain ⟨n, hn, h⟩ := bind_eq_ok.1 h
    obtain ⟨v, hv, hn⟩ := bind_eq_ok.1 hn
    have hall := crawlAll_sound hcs
    split at h
    · cases h
      exact .mk hall (fun h => by cases h) (fun h => by cases h)
    · rename_i hcond
      cases h
      refine .mk hall (fun _ hne => exists_enabled_of_countP fun h0 => hcond ?_)
        fun _ hl => ⟨v, n, hv, hn, Nat.pos_of_ne_zero fun h0 => hcond ?_⟩
      · simp [h0, List.isEmpty_iff, hne]
      · simp [h0, hl]

theorem crawlAll_sound : ∀ {cs cs' : List Choice}, ChooseP.crawlAll linux look cs = .ok cs' →
    ∀ c ∈ cs', Sound linux look c
  | [], _, h, _, hc => by
    cases h
    cases hc
  | c :: cs, _, h, c', hc' => by
    rw [ChooseP.crawlAll] at h
    obtain ⟨d, hd, h⟩ := bind_eq_ok.1 h
    obtain ⟨ds, hds, h⟩ := bind_eq_ok.1 h
    cases h
    rcases List.mem_cons.1 hc' with rfl | hc'
    · exact crawl_sound hd
    · exact crawlAll_sound hds c' hc'

end

theorem crawl_name {t t' : Choice} (h : ChooseP.crawl linux look t = .ok t') : t'.name = t.name := by
  rcases t with ⟨name, meta, descr, disabled, children⟩
  rw [ChooseP.crawl] at h
  obtain ⟨cs, -, h⟩ := bind_eq_ok.1 h
  obtain ⟨n, -, h⟩ := bind_eq_ok.1 h
  split at h <;> cases h <;> rfl

mutual

/-- `crawl` keeps every name, so a tree of `str` names stays one. -/
theorem crawl_named : ∀ {t t' : Choice}, ChooseP.crawl linux look t = .ok t' → Named t → Named t'
  | .mk name meta descr disabled children, t', h, hn => by
    cases hn with
    | mk hstr hnamed =>
      rw [ChooseP.crawl] at h
      obtain ⟨cs, hcs, h⟩ := bind_eq_ok.1 h
      obtain ⟨n, -, h⟩ := bind_eq_ok.1 h
      have hall := crawlAll_named hcs fun c hc => ⟨hstr c hc, hnamed c hc⟩
      split at h <;> cases h <;> exact .mk (fun c hc => (hall c hc).1) fun c hc => (hall c hc).2

theorem crawlAll_named : ∀ {cs cs' : List Choice}, ChooseP.crawlAll linux look cs = .ok cs' →
    (∀ c ∈ cs, c.name.isStr = true ∧ Named c) → ∀ c ∈ cs', c.name.isStr = true ∧ Named c
  | [], _, h, _, _, hc => by
    cases h
    cases hc
  | c :: cs, _, h, hall, c', hc' => by
    rw [ChooseP.crawlAll] at h
    obtain ⟨d, hd, h⟩ := bind_eq_ok.1 h
    obtain ⟨ds, hds, h⟩ := bind_eq_ok.1 h
    cases h
    have hc := hall c (List.mem_cons_self c cs)
    rcases List.mem_cons.1 hc' with rfl | hc'
    · exact ⟨crawl_name hd ▸ hc.1, crawl_named hd hc.2⟩
    · exact crawlAll_named hds (fun c hc => hall c (List.mem_cons_of_mem _ hc)) c' hc'

end

end Crawl

/-! ## `prompt` -/

/-- `len(name)`: a `str`, a list or a dict has one; `None`, `True` and an
integer raise `TypeError`. -/
def pyLen : Value → Except Fault Nat
  | .node (.str s) => .ok s.length
  | .node (.list xs) => .ok xs.length
  | .node (.dict kvs) => .ok (kvs.map Prod.fst).dedup.length
  | _ => .error .typeError

/-- A name used where only a `str` will do: formatted with a width,
`"{:{}}".format(c.name, pad)`, which a list or a dict refuses, or added to a
`str`. Anything else raises `TypeError`. -/
def asName : Value → Except Fault Unit
  | .node (.str _) => .ok ()
  | _ => .error .typeError

/-- The lines `prompt(title, choices)` builds before it reads an answer:
`pad = 3 + max([len(c.name) for c in choices])`, where `max` of an empty
menu raises `ValueError`, then one line per choice with its name padded to
`pad`. -/
def promptLines (choices : List Choice) : Except Fault Unit :=
  choices.mapM (fun c => pyLen c.name) >>= fun lens =>
  if lens = [] then .error .valueError else choices.forM fun c => asName c.name

/-- The answer loop of `prompt(title, choices)`, over the user's answers as
`int(input(msg))` reads them (`none` where `int` raises `ValueError`). An
answer outside `[1..len(choices)]`, or one naming a disabled choice, is
refused, and the first other one is accepted: `prompt` returns the choice
at the index `i` it then holds, given here with the answers left. `none`
while no answer has been accepted. -/
def promptLoop (choices : List Choice) : List (Option Int) → Option (Nat × List (Option Int))
  | [] => none
  | none :: rest => promptLoop choices rest
  | some i :: rest =>
    if h : 1 ≤ i ∧ i ≤ choices.length then
      if (choices.get ⟨(i - 1).toNat, by omega⟩).disabled then promptLoop choices rest
      else some ((i - 1).toNat, rest)
    else promptLoop choices rest

/-- `prompt(title, choices)`: its lines, then its answer loop. -/
def prompt (choices : List Choice) (ans : List (Option Int)) :
    Except Fault (Option (Nat × List (Option Int))) :=
  promptLines choices >>= fun _ => .ok (promptLoop choices ans)

/-- The answer `a` names the enabled choice at index `j`. -/
def Accepts (choices : List Choice) (a : Option Int) (j : Nat) : Prop :=
  a = some ((j : Int) + 1) ∧ ∃ c, choices[j]? = some c ∧ c.disabled = false

/-! ### The lines -/

section Lines

theorem asName_eq (v : Value) : asName v = if v.isStr then .ok () else .error .typeError := by
  rcases v with _ | _ | (_ | _ | _ | _) <;> rfl

theorem pyLen_error {v : Value} {e : Fault} (h : pyLen v = .error e) :
    e = .typeError ∧ v.isStr = false := by
  rcases v with _ | _ | (_ | _ | _ | _) <;> cases h <;> exact ⟨rfl, rfl⟩

/-- `mapM` fails only as `f` does on an item. -/
theorem mapM_error {α β : Type} {f : α → Except Fault β} {e : Fault} {l : List α}
    (h : l.mapM f = .error e) : ∃ x ∈ l, f x = .error e := by
  by_contra hne
  push_neg at hne
  exact mapM_ne_error hne h

theorem mapM_cons_ne_nil {α β : Type} {f : α → Except Fault β} {x : α} {l : List α} {ys : List β}
    (h : (x :: l).mapM f = .ok ys) : ys ≠ [] := by
  rw [List.mapM_cons] at h
  obtain ⟨b, -, h⟩ := bind_eq_ok.1 h
  obtain ⟨bs, -, h⟩ := bind_eq_ok.1 h
  rw [← Except.ok.inj h]
  exact List.cons_ne_nil b bs

theorem forM_asName : ∀ (cs : List Choice),
    (cs.forM fun c => asName c.name) = if cs.all (·.name.isStr) then .ok () else .error .typeError
  | [] => rfl
  | c :: cs => by
    rw [List.forM, asName_eq, List.all_cons, forM_asName cs]
    cases c.name.isStr <;> rfl

theorem promptLines_nil : promptLines [] = .error .valueError := rfl

/-- **What `prompt` does before it reads an answer**: on a menu that is not
empty, `TypeError` for a name that is not a `str`. -/
theorem promptLines_cons (c : Choice) (cs : List Choice) :
    promptLines (c :: cs) = if (c :: cs).all (·.name.isStr) then .ok () else .error .typeError := by
  rw [promptLines]
  rcases hm : (c :: cs).mapM (fun c => pyLen c.name) with e | lens
  · obtain ⟨d, hd, he⟩ := mapM_error hm
    obtain ⟨rfl, hs⟩ := pyLen_error he
    have hall : ¬ (c :: cs).all (·.name.isStr) = true := fun h => by
      rw [List.all_eq_true] at h
      rw [h d hd] at hs
      cases hs
    rw [hm, if_neg hall]
    rfl
  · rw [hm, ok_bind, if_neg (mapM_cons_ne_nil hm), forM_asName]

theorem promptLines_eq_ok {cs : List Choice} {u : Unit} :
    promptLines cs = .ok u ↔ cs ≠ [] ∧ cs.all (·.name.isStr) = true := by
  rcases cs with _ | ⟨c, cs⟩
  · exact ⟨fun h => (by cases h), fun h => absurd rfl h.1⟩
  · rw [promptLines_cons]
    cases (c :: cs).all (·.name.isStr) <;> simp

theorem prompt_eq_ok {cs : List Choice} {ans : List (Option Int)} {o : Option (Nat × List (Option Int))} :
    prompt cs ans = .ok o ↔ (cs ≠ [] ∧ cs.all (·.name.isStr) = true) ∧ promptLoop cs ans = o := by
  rw [prompt, bind_eq_ok]
  constructor
  · rintro ⟨u, hu, h⟩
    exact ⟨promptLines_eq_ok.1 hu, Except.ok.inj h⟩
  · rintro ⟨hu, rfl⟩
    exact ⟨(), promptLines_eq_ok.2 hu, rfl⟩

end Lines

/-! ### The answer loop -/

section Loop

variable {choices : List Choice}

theorem Accepts.index_eq {a : Option Int} {j k : Nat} (hj : Accepts choices a j)
    (hk : Accepts choices a k) : j = k := by
  have := hj.1.symm.trans hk.1
  simp only [Option.some.injEq] at this
  omega

/-- **One answer**: it is accepted, at the index it names, or refused and
the loop reads on. -/
theorem promptLoop_cons (a : Option Int) (rest : List (Option Int)) :
    (∃ j, Accepts choices a j ∧ promptLoop choices (a :: rest) = some (j, rest)) ∨
      ((∀ j, ¬ Accepts choices a j) ∧ promptLoop choices (a :: rest) = promptLoop choices rest) := by
  rcases a with _ | i
  · exact .inr ⟨(fun _ h => nomatch h.1), rfl⟩
  · rw [promptLoop]
    by_cases hr : 1 ≤ i ∧ i ≤ choices.length
    · have hj : (i - 1).toNat < choices.length := by omega
      have hget : choices[(i - 1).toNat]? = some (choices.get ⟨(i - 1).toNat, hj⟩) :=
        List.getElem?_eq_getElem hj
      have hi : i = (((i - 1).toNat : Nat) : Int) + 1 := by omega
      rw [dif_pos hr]
      cases hd : (choices.get ⟨(i - 1).toNat, hj⟩).disabled
      · exact .inl ⟨_, And.intro (congrArg some hi) ⟨_, hget, hd⟩, if_neg (by simp)⟩
      · refine .inr ⟨fun k ⟨hk, c, hc, hcd⟩ => ?_, if_pos rfl⟩
        obtain rfl : k = (i - 1).toNat := by
          simp only [Option.some.injEq] at hk
          omega
        rw [hget] at hc
        cases hc
        rw [hd] at hcd
        cases hcd
    · refine .inr ⟨fun k ⟨hk, c, hc, _⟩ => hr ?_, dif_neg hr⟩
      have hk' := (List.getElem?_eq_some_iff.1 hc).1
      simp only [Option.some.injEq] at hk
      omega

theorem promptLoop_of_accepts {a : Option Int} {j : Nat} (h : Accepts choices a j)
    (rest : List (Option Int)) : promptLoop choices (a :: rest) = some (j, rest) := by
  rcases @promptLoop_cons choices a rest with ⟨k, hk, hp⟩ | ⟨hno, -⟩
  · rw [hp, hk.index_eq h]
  · exact absurd h (hno j)

/-- Refused answers are read and passed over. -/
theorem promptLoop_append_refused :
    ∀ {pre : List (Option Int)}, (∀ a ∈ pre, ∀ k, ¬ Accepts choices a k) →
      ∀ ans, promptLoop choices (pre ++ ans) = promptLoop choices ans
  | [], _, _ => rfl
  | a :: pre, h, ans => by
    rcases @promptLoop_cons choices a (pre ++ ans) with ⟨k, hk, -⟩ | ⟨-, hp⟩
    · exact absurd hk (h a (List.mem_cons_self a pre) k)
    · rw [List.cons_append, hp,
        promptLoop_append_refused (fun b hb => h b (List.mem_cons_of_mem a hb))]

/-- The loop accepts the first answer that names an enabled choice. -/
theorem promptLoop_eq_some_iff {ans rest : List (Option Int)} {j : Nat} :
    promptLoop choices ans = some (j, rest) ↔
      ∃ pre, ans = pre ++ some ((j : Int) + 1) :: rest ∧ Accepts choices (some ((j : Int) + 1)) j ∧
        ∀ a ∈ pre, ∀ k, ¬ Accepts choices a k := by
  refine ⟨fun h => ?_, fun ⟨pre, heq, hj, hpre⟩ => by
    rw [heq, promptLoop_append_refused hpre, promptLoop_of_accepts hj]⟩
  induction ans with
  | nil => nomatch h
  | cons a ans ih =>
    rcases @promptLoop_cons choices a ans with ⟨k, hk, hp⟩ | ⟨hno, hp⟩
    · rw [hp, Option.some.injEq, Prod.mk.injEq] at h
      obtain ⟨rfl, rfl⟩ := h
      exact ⟨[], by rw [hk.1]; rfl, hk.1 ▸ hk, fun _ h => nomatch h⟩
    · obtain ⟨pre, rfl, hj, hpre⟩ := ih (hp ▸ h)
      exact ⟨a :: pre, rfl, hj, List.forall_mem_cons.2 ⟨hno, hpre⟩⟩

/-- The loop waits while no answer names an enabled choice. -/
theorem promptLoop_eq_none_iff {ans : List (Option Int)} :
    promptLoop choices ans = none ↔ ∀ a ∈ ans, ∀ k, ¬ Accepts choices a k := by
  refine ⟨fun h => ?_, fun h => by simpa using promptLoop_append_refused h []⟩
  induction ans with
  | nil => exact fun _ h => nomatch h
  | cons a ans ih =>
    rcases @promptLoop_cons choices a ans with ⟨k, hk, hp⟩ | ⟨hno, hp⟩
    · rw [hp] at h
      nomatch h
    · exact List.forall_mem_cons.2 ⟨hno, ih (hp ▸ h)⟩

theorem promptLoop_enabled {ans rest : List (Option Int)} {j : Nat}
    (h : promptLoop choices ans = some (j, rest)) :
    ∃ c, choices[j]? = some c ∧ c.disabled = false := by
  obtain ⟨-, -, hj, -⟩ := promptLoop_eq_some_iff.1 h
  exact hj.2

end Loop

/-- **What `prompt` does with the answers.** An empty menu raises
`ValueError`, and a name that is not a `str` raises `TypeError`, before any
answer is read. Otherwise it returns the index `j` with the answers after
the first one that names an enabled choice, which names the one at `j`; and
it waits, reading every answer, while none does. -/
theorem prompt_first_accepted (choices : List Choice) (ans : List (Option Int)) :
    (choices = [] → prompt choices ans = .error .valueError) ∧
    (choices ≠ [] → choices.all (·.name.isStr) = false → prompt choices ans = .error .typeError) ∧
    (choices ≠ [] → choices.all (·.name.isStr) = true →
      (∀ j rest, prompt choices ans = .ok (some (j, rest)) ↔
        ∃ pre, ans = pre ++ some ((j : Int) + 1) :: rest ∧ Accepts choices (some ((j : Int) + 1)) j ∧
          ∀ a ∈ pre, ∀ k, ¬ Accepts choices a k) ∧
      (prompt choices ans = .ok none ↔ ∀ a ∈ ans, ∀ k, ¬ Accepts choices a k)) := by
  refine ⟨fun hc => ?_, fun hc hs => ?_, fun hc hs => ⟨fun j rest => ?_, ?_⟩⟩
  · rw [hc, prompt, promptLines_nil]
    rfl
  · obtain ⟨c, cs, rfl⟩ := List.exists_cons_of_ne_nil hc
    rw [prompt, promptLines_cons, hs]
    rfl
  · rw [prompt_eq_ok, and_iff_right ⟨hc, hs⟩, promptLoop_eq_some_iff]
  · rw [prompt_eq_ok, and_iff_right ⟨hc, hs⟩, promptLoop_eq_none_iff]

/-! ## `tree_prompt` -/

mutual

/-- `tree_prompt(title, root)` over the user's answers: while the node has
children, into the only one, after
`log.warn("only avail. option is "+root.name)`, or into the one `prompt`
returns; with the answers left. `none` while `prompt` waits. -/
def treePrompt : Choice → List (Option Int) → Except Fault (Option (Choice × List (Option Int)))
  | .mk name meta descr disabled [], ans => .ok (some (.mk name meta descr disabled [], ans))
  | .mk _ _ _ _ [c], ans => asName c.name >>= fun _ => treePrompt c ans
  | .mk _ _ _ _ (c :: c' :: cs), ans =>
    prompt (c :: c' :: cs) ans >>= fun
      | none => .ok none
      | some (i, rest) => treePromptAt (c :: c' :: cs) i rest

/-- `tree_prompt` from `children[i]`. -/
def treePromptAt : List Choice → Nat → List (Option Int) →
    Except Fault (Option (Choice × List (Option Int)))
  | [], _, _ => .ok none
  | c :: _, 0, ans => treePrompt c ans
  | _ :: cs, i + 1, ans => treePromptAt cs i ans

end

theorem treePromptAt_of_getElem? :
    ∀ {cs : List Choice} {i : Nat} {c : Choice}, cs[i]? = some c →
      ∀ ans, treePromptAt cs i ans = treePrompt c ans
  | _ :: _, 0, _, h, ans => by
    rw [List.getElem?_cons_zero] at h
    cases h
    rw [treePromptAt]
  | _ :: _, i + 1, _, h, ans => by
    rw [List.getElem?_cons_succ] at h
    rw [treePromptAt]
    exact treePromptAt_of_getElem? h ans

theorem asName_eq_ok {v : Value} {u : Unit} : asName v = .ok u ↔ v.isStr = true := by
  rw [asName_eq]
  cases v.isStr <;> simp

mutual

/-- **`tree_prompt` refines `Prompted`**: whatever it returns is a node
the relational model allows. -/
theorem treePrompt_prompted : ∀ {t r : Choice} {ans rest : List (Option Int)},
    treePrompt t ans = .ok (some (r, rest)) → Prompted t r
  | .mk name meta descr disabled [], r, ans, rest, h => by
    rw [treePrompt] at h
    cases h
    exact .leaf name meta descr disabled
  | .mk name meta descr disabled [c], r, ans, rest, h => by
    rw [treePrompt] at h
    obtain ⟨_, hn, h⟩ := bind_eq_ok.1 h
    exact .only name meta descr disabled (asName_eq_ok.1 hn) (treePrompt_prompted h)
  | .mk name meta descr disabled (c :: c' :: cs), r, ans, rest, h => by
    rw [treePrompt] at h
    obtain ⟨o, hp, h⟩ := bind_eq_ok.1 h
    obtain ⟨⟨-, hnames⟩, hloop⟩ := prompt_eq_ok.1 hp
    rcases o with _ | ⟨i, rest'⟩
    · nomatch h
    obtain ⟨d, hd, hdis⟩ := promptLoop_enabled hloop
    obtain ⟨d', hd', hpr⟩ := treePromptAt_prompted h
    rw [hd] at hd'
    cases hd'
    exact .pick name meta descr disabled (by simp) (List.all_eq_true.1 hnames)
      (List.getElem?_mem hd) hdis hpr

theorem treePromptAt_prompted : ∀ {cs : List Choice} {i : Nat} {r : Choice}
    {ans rest : List (Option Int)}, treePromptAt cs i ans = .ok (some (r, rest)) →
      ∃ c, cs[i]? = some c ∧ Prompted c r
  | [], _, _, _, _, h => nomatch h
  | c :: _, 0, _, _, _, h => by
    rw [treePromptAt] at h
    exact ⟨c, List.getElem?_cons_zero, treePrompt_prompted h⟩
  | _ :: cs, i + 1, _, _, _, h => by
    rw [treePromptAt] at h
    rw [List.getElem?_cons_succ]
    exact treePromptAt_prompted h

end

/-- `Prompted` is complete for `tree_prompt`: some answers, all read, reach
every node it allows. -/
theorem Prompted.exists_answers {t r : Choice} (h : Prompted t r) :
    ∃ ans, treePrompt t ans = .ok (some (r, [])) := by
  induction h with
  | leaf name meta descr disabled => exact ⟨[], by rw [treePrompt]⟩
  | only name meta descr disabled hname _ ih =>
    obtain ⟨ans, h⟩ := ih
    exact ⟨ans, by rw [treePrompt, asName_eq, if_pos hname, ok_bind, h]⟩
  | @pick name meta descr disabled cs c r hlen hnames hc hd _ ih =>
    obtain ⟨ans, h⟩ := ih
    obtain ⟨j, hj⟩ := List.getElem?_of_mem hc
    refine ⟨some ((j : Int) + 1) :: ans, ?_⟩
    match cs, hlen with
    | c₁ :: c₂ :: cs, _ =>
      have hp : prompt (c₁ :: c₂ :: cs) (some ((j : Int) + 1) :: ans) = .ok (some (j, ans)) :=
        prompt_eq_ok.2 ⟨⟨List.cons_ne_nil _ _, List.all_eq_true.2 hnames⟩,
          promptLoop_of_accepts (And.intro rfl ⟨c, hj, hd⟩) ans⟩
      rw [treePrompt, hp, ok_bind]
      exact (treePromptAt_of_getElem? hj ans).trans h

/-- Every enabled node below with children, a menu `tree_prompt` enters or
shows, offers an enabled choice. -/
inductive Offers : Choice → Prop
  | mk {name : Value} {meta : List Char} {descr : Value} {disabled : Bool} {children : List Choice} :
      (∀ c ∈ children, Offers c) →
      (disabled = false → children ≠ [] → ∃ c ∈ children, c.disabled = false) →
      Offers (.mk name meta descr disabled children)

mutual

/-- An enabled node whose menus offer an enabled choice and whose names are
`str`s leads, along `Prompted`, to some node. -/
theorem exists_prompted : ∀ {t : Choice}, Offers t → Named t → t.disabled = false →
    ∃ r, Prompted t r
  | .mk name meta descr disabled [], _, _, _ => ⟨_, .leaf name meta descr disabled⟩
  | .mk name meta descr disabled [c], hs, hn, ht => by
    cases hs with
    | mk hall hen =>
      cases hn with
      | mk hstr hnamed =>
        obtain ⟨c', hc', hd⟩ := hen ht (List.cons_ne_nil _ _)
        rw [List.mem_singleton] at hc'
        rw [hc'] at hd
        obtain ⟨r, h⟩ := exists_promptedOf [c] hall hnamed c (List.mem_singleton_self _) hd
        exact ⟨r, .only name meta descr disabled (hstr c (List.mem_singleton_self _)) h⟩
  | .mk name meta descr disabled (c :: c' :: cs), hs, hn, ht => by
    cases hs with
    | mk hall hen =>
      cases hn with
      | mk hstr hnamed =>
        obtain ⟨d, hd, hdd⟩ := hen ht (List.cons_ne_nil _ _)
        obtain ⟨r, h⟩ := exists_promptedOf _ hall hnamed d hd hdd
        exact ⟨r, .pick name meta descr disabled (by simp) hstr hd hdd h⟩

theorem exists_promptedOf : ∀ (cs : List Choice), (∀ c ∈ cs, Offers c) →
    (∀ c ∈ cs, Named c) → ∀ c ∈ cs, c.disabled = false → ∃ r, Prompted c r
  | [], _, _, _, hc, _ => nomatch hc
  | c :: cs, hall, hn, d, hd, hdd => by
    rcases List.mem_cons.1 hd with h | hd
    · rw [h] at hdd ⊢
      exact exists_prompted (hall c (List.mem_cons_self c cs)) (hn c (List.mem_cons_self c cs)) hdd
    · exact exists_promptedOf cs (fun c' hc' => hall c' (List.mem_cons_of_mem c hc'))
        (fun c' hc' => hn c' (List.mem_cons_of_mem c hc')) d hd hdd

end

/-- **What `tree_prompt` can return.** The nodes it returns for some
answers are exactly those `Prompted` allows, and each of them is a leaf of
the tree. From an enabled root whose menus each offer an enabled choice and
whose names are `str`s, some answers, all read, reach a leaf. -/
theorem treePrompt_iff_prompted (t r : Choice) :
    ((∃ ans rest, treePrompt t ans = .ok (some (r, rest))) ↔ Prompted t r) ∧
      (Prompted t r → r.children = [] ∧ r.meta ∈ t.leafMetas) ∧
      (Offers t → Named t → t.disabled = false →
        ∃ ans r', treePrompt t ans = .ok (some (r', [])) ∧ r'.children = [] ∧ r'.meta ∈ t.leafMetas) := by
  refine ⟨⟨fun ⟨_, _, h⟩ => treePrompt_prompted h, fun h => (h.exists_answers).imp fun _ h => ⟨[], h⟩⟩,
    Prompted.leaf_meta, fun ho hn ht => ?_⟩
  obtain ⟨r', hr⟩ := exists_prompted ho hn ht
  obtain ⟨ans, h⟩ := hr.exists_answers
  exact ⟨ans, r', h, hr.leaf_meta⟩

/-! ## From an enabled root -/

section Enabled

variable {linux : Bool} {look : List Char → Bool → Except Fault Value}

/-- Along `Prompted`, a `Sound` enabled node leads only to enabled nodes
with prebuilt configurations off Linux. -/
theorem Prompted.enabled {t r : Choice} (h : Prompted t r) (hs : Sound linux look t)
    (ht : t.disabled = false) :
    r.disabled = false ∧ (linux = false → HasPrebuilts look r.meta) := by
  induction h with
  | leaf name meta descr disabled =>
    cases hs with
    | mk _ _ hpb => exact ⟨ht, hpb ht⟩
  | only name meta descr disabled _ _ ih =>
    cases hs with
    | mk hall hen _ =>
      obtain ⟨c', hc', hd⟩ := hen ht (List.cons_ne_nil _ _)
      rw [List.mem_singleton] at hc'
      subst hc'
      exact ih (hall _ (List.mem_singleton_self _)) hd
  | pick name meta descr disabled _ _ hc hd _ ih =>
    cases hs with
    | mk hall _ _ => exact ih (hall _ hc) hd


theorem Sound.offers {t : Choice} (h : Sound linux look t) : Offers t := by
  induction h with
  | mk _ hen _ ih => exact .mk ih hen

/-- **Choosing a platform.** When `crawl` returns a menu whose root is
enabled, every node `tree_prompt` returns is an enabled leaf of it, which
off Linux has prebuilt configurations; and when every name of the menu is a
`str`, some answers reach one. -/
theorem choose_platform {t t' : Choice} (hc : ChooseP.crawl linux look t = .ok t')
    (ht : t'.disabled = false) :
    (∀ ans r rest, treePrompt t' ans = .ok (some (r, rest)) →
      r.disabled = false ∧ r.children = [] ∧ r.meta ∈ t'.leafMetas ∧
        (linux = false → HasPrebuilts look r.meta)) ∧
    (Named t → ∃ ans r, treePrompt t' ans = .ok (some (r, []))) := by
  have hs := crawl_sound hc
  refine ⟨fun ans r rest h => ?_, fun hn => ?_⟩
  · have hp := treePrompt_prompted h
    obtain ⟨hd, hpb⟩ := hp.enabled hs ht
    exact ⟨hd, hp.leaf_meta.1, hp.leaf_meta.2, hpb⟩
  · obtain ⟨r, hr⟩ := exists_prompted hs.offers (crawl_named hc hn) ht
    obtain ⟨ans, h⟩ := hr.exists_answers
    exact ⟨ans, r, h⟩

/-- Two boards below `p`: `p.a`, with a prebuilt configuration, and `p.b`. -/
def boardMenu : Choice :=
  .mk (.node (.str "<root>".toList)) "p".toList .none false
    [.mk (.node (.str "A".toList)) "p.a".toList .none false [],
     .mk (.node (.str "B".toList)) "p.b".toList .none false []]

/-- `p.b` has no prebuilt configuration; `p` and `p.a` have one. -/
def boardLook (k : List Char) (_ : Bool) : Except Fault Value :=
  if k = "p.b.pb".toList then .ok .none else .ok (.node (.list [.str "pb.a".toList]))

/-- Off Linux, `crawl` disables `p.b` and keeps the root enabled. -/
theorem choose_boardMenu :
    ∃ t', ChooseP.crawl false boardLook boardMenu = .ok t' ∧ t'.disabled = false ∧
      (∀ ans r rest, treePrompt t' ans = .ok (some (r, rest)) →
        r.disabled = false ∧ r.children = [] ∧ r.meta ∈ t'.leafMetas ∧
          (false = false → HasPrebuilts boardLook r.meta)) ∧
      (Named boardMenu → ∃ ans r, treePrompt t' ans = .ok (some (r, []))) :=
  ⟨_, rfl, rfl, @choose_platform false boardLook boardMenu _ rfl rfl⟩

end Enabled

/-- **Below a disabled node.** Among two or more children that are all
disabled no answer is accepted: `tree_prompt` raises what `prompt` raises
before reading an answer, or else never returns. -/
theorem treePrompt_all_disabled {name : Value} {meta : List Char} {descr : Value}
    {disabled : Bool} {cs : List Choice} (hlen : 2 ≤ cs.length)
    (hall : ∀ c ∈ cs, c.disabled = true) (ans : List (Option Int)) :
    treePrompt (.mk name meta descr disabled cs) ans = (fun _ => none) <$> promptLines cs := by
  match cs, hlen with
  | c :: c' :: cs, _ =>
    have hnone : promptLoop (c :: c' :: cs) ans = none :=
      promptLoop_eq_none_iff.2 fun _ _ k ⟨_, d, hd, hdd⟩ => by
        rw [hall d (List.getElem?_mem hd)] at hdd
        cases hdd
    rw [treePrompt, prompt, hnone]
    cases promptLines (c :: c' :: cs) <;> rfl

/-- Two disabled boards: no answer leaves the menu. -/
theorem treePrompt_twoDisabled :
    treePrompt (.mk .none "p".toList .none true
      [.mk (.node (.str "A".toList)) "p.a".toList disabledDescr true [],
       .mk (.node (.str "B".toList)) "p.b".toList disabledDescr true []])
      [some 1, some 2, none, some 3] = .ok none :=
  (treePrompt_all_disabled (by decide) (by decide) _).trans rfl

end Menu

end ArmPlat
