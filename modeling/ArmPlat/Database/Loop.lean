import ArmPlat.Database.Fuel
/-!
# The substitution loop makes progress

A pass of `while "{" in item` cuts the token from the first `{` to the
first `}` and replaces every occurrence of it by what the lookup of the
text between answers. No string a lookup answers holds a `{`
(`lookupWith_str_lbrace`), and a token cut with its `{` first holds one,
so every pass that completes removes at least one `{`; one cut with its
`}` first is empty, and the lookup of the empty key fails where no dict
has that key. Hence (`substitution_progress`):

* every pass that completes lowers the number of `{`, and keeps it no
  larger than the number of `}`, which the brace check makes true at the
  start;
* the loop ends within one pass per `{`;
* the retry through `dblu`, taken only when a pass changes nothing, is
  never taken: `lookup` is `lookupWith directPass`.
-/

namespace ArmPlat

namespace Database

open Py

/-! ## The token a pass cuts -/

theorem exists_first {c : Char} {s : List Char} (h : c ∈ s) :
    ∃ pre post, s = pre ++ c :: post ∧ c ∉ pre := by
  induction s with
  | nil => cases h
  | cons a s ih =>
    by_cases ha : a = c
    · exact ⟨[], s, by simp [ha], by simp⟩
    · obtain ⟨pre, post, rfl, hpre⟩ := ih ((List.mem_cons.1 h).resolve_left (Ne.symm ha))
      exact ⟨a :: pre, post, rfl, by simp [hpre, Ne.symm ha]⟩

/-- The first `{` and the first `}` of a string that has both: the `{`
first with no `}` before the next `}`, or the `}` first. -/
theorem exists_token {item : List Char} (hl : '{' ∈ item) (hr : '}' ∈ item) :
    (∃ pre x post, item = pre ++ '{' :: x ++ '}' :: post ∧ '{' ∉ pre ∧ '}' ∉ pre ∧ '}' ∉ x) ∨
      ∃ pre mid post, item = pre ++ '}' :: mid ++ '{' :: post ∧ '{' ∉ pre ∧ '}' ∉ pre ∧
        '{' ∉ mid := by
  induction item with
  | nil => cases hl
  | cons a s ih =>
    by_cases ha : a = '{'
    · obtain ⟨x, post, rfl, hx⟩ := exists_first ((List.mem_cons.1 hr).resolve_left (by simp [ha]))
      exact .inl ⟨[], x, post, by simp [ha], by simp, by simp, hx⟩
    by_cases hb : a = '}'
    · obtain ⟨mid, post, rfl, hm⟩ := exists_first ((List.mem_cons.1 hl).resolve_left (by simp [hb]))
      exact .inr ⟨[], mid, post, by simp [hb], by simp, by simp, hm⟩
    rcases ih ((List.mem_cons.1 hl).resolve_left (Ne.symm ha))
      ((List.mem_cons.1 hr).resolve_left (Ne.symm hb)) with
      ⟨pre, x, post, rfl, h1, h2, hx⟩ | ⟨pre, mid, post, rfl, h1, h2, hm⟩
    · exact .inl ⟨a :: pre, x, post, rfl, by simp [h1, Ne.symm ha], by simp [h2, Ne.symm hb], hx⟩
    · exact .inr ⟨a :: pre, mid, post, rfl, by simp [h1, Ne.symm ha], by simp [h2, Ne.symm hb], hm⟩

/-- With the `{` first, `search` is the text between and `replace` the
whole token. -/
theorem token_of_lbrace_first {pre x post : List Char} (h1 : '{' ∉ pre) (h2 : '}' ∉ pre)
    (hx : '}' ∉ x) : token (pre ++ '{' :: x ++ '}' :: post) = (x, '{' :: x ++ ['}']) := by
  have hl : find (pre ++ '{' :: x ++ '}' :: post) '{' = pre.length := by
    simpa using @find_append_cons pre (x ++ '}' :: post) '{' h1
  have hr : find (pre ++ '{' :: x ++ '}' :: post) '}' = ((pre.length + 1 + x.length : Nat) : Int) := by
    rw [find_append_cons (by simp [h2, hx])]
    simp; omega
  have hlen : (pre ++ '{' :: x ++ '}' :: post).length = pre.length + 1 + x.length + 1 + post.length := by
    simp; omega
  rw [token, hl, hr, show (pre.length : Int) + 1 = ((pre.length + 1 : Nat) : Int) by omega,
    show ((pre.length + 1 + x.length : Nat) : Int) + 1 = ((pre.length + 1 + x.length + 1 : Nat) : Int)
      by omega, slice_of_le (by omega) (by omega), slice_of_le (by omega) (by omega)]
  have h3 : pre.length + 1 + x.length + 1 - pre.length = x.length + 1 + 1 := by omega
  simp [h3, List.take_append]

/-- With the `}` first, both slices are empty. -/
theorem token_of_rbrace_first {pre mid post : List Char} (h1 : '{' ∉ pre) (h2 : '}' ∉ pre)
    (hm : '{' ∉ mid) : token (pre ++ '}' :: mid ++ '{' :: post) = ([], []) := by
  have hr : find (pre ++ '}' :: mid ++ '{' :: post) '}' = pre.length := by
    simpa using @find_append_cons pre (mid ++ '{' :: post) '}' h2
  have hl : find (pre ++ '}' :: mid ++ '{' :: post) '{' = ((pre.length + 1 + mid.length : Nat) : Int) := by
    rw [find_append_cons (by simp [h1, hm])]
    simp; omega
  have hlen : (pre ++ '}' :: mid ++ '{' :: post).length = pre.length + 1 + mid.length + 1 + post.length := by
    simp; omega
  rw [token, hl, hr, show ((pre.length + 1 + mid.length : Nat) : Int) + 1 =
      ((pre.length + 1 + mid.length + 1 : Nat) : Int) by omega,
    show (pre.length : Int) + 1 = ((pre.length + 1 : Nat) : Int) by omega,
    slice_of_le (by omega) (by omega), slice_of_le (by omega) (by omega)]
  simp [show pre.length - (pre.length + 1 + mid.length + 1) = 0 by omega,
    show pre.length + 1 - (pre.length + 1 + mid.length) = 0 by omega]

/-- **The token of a pass**: empty, or a `{`, text without `}`, and a `}`,
found in the string. -/
theorem token_cases {item : List Char} (hl : '{' ∈ item) (hbal : item.count '{' ≤ item.count '}') :
    token item = ([], []) ∨
      ∃ x, token item = (x, '{' :: x ++ ['}']) ∧ '{' :: x ++ ['}'] <:+: item ∧ '}' ∉ x := by
  have hr : '}' ∈ item := List.count_pos_iff.1 (lt_of_lt_of_le (List.count_pos_iff.2 hl) hbal)
  rcases exists_token hl hr with ⟨pre, x, post, rfl, h1, h2, hx⟩ | ⟨pre, mid, post, rfl, h1, h2, hm⟩
  · refine .inr ⟨x, token_of_lbrace_first h1 h2 hx, ⟨pre, post, by simp⟩, hx⟩
  · exact .inl (token_of_rbrace_first h1 h2 hm)

/-! ## One pass -/

/-- No more `{` than `}`: true when the loop starts, and kept by every
pass. -/
def Balanced (s : List Char) : Prop :=
  s.count '{' ≤ s.count '}'

/-- What a pass needs of the lookup against `d`: no string it answers holds
a `{`, and the empty key fails. -/
structure TokenLookup (L : List Char → Except Fault Value) : Prop where
  no_lbrace : ∀ x s, L x = .ok (.node (.str s)) → '{' ∉ s
  empty_fails : ∀ v, L [] ≠ .ok v

/-- Replacing an occurring token by a string without `{`. -/
theorem replaceWith_progress {item x item' : List Char} {v : Value}
    (hocc : '{' :: x ++ ['}'] <:+: item) (hx : '}' ∉ x) (hv : ∀ s, v = .node (.str s) → '{' ∉ s)
    (hbal : Balanced item) (h : replaceWith item ('{' :: x ++ ['}']) v = .ok item') :
    item'.count '{' < item.count '{' ∧ Balanced item' := by
  rcases v with _ | _ | ⟨sub | _ | _ | _⟩ <;> simp only [replaceWith] at h <;> try cases h
  have hsub : sub.count '{' = 0 := List.count_eq_zero.2 (hv sub rfl)
  have hrb : ('{' :: x ++ ['}']).count '}' ≤ ('{' :: x ++ ['}']).count '{' := by
    simp [List.count_eq_zero.2 hx]
  have := count_replace_add_le hrb (by simp) hsub item
  exact ⟨count_replace_lt (by simp) hsub hocc, by unfold Balanced at *; omega⟩

section Pass

variable {L G : List Char → Except Fault Value} {item : List Char}

/-- **A pass that completes removes a `{`**, and keeps the string
balanced. -/
theorem directPass_progress (hL : TokenLookup L) (hl : '{' ∈ item) (hbal : Balanced item)
    {item' : List Char} (h : directPass L G item = .ok item') :
    item'.count '{' < item.count '{' ∧ Balanced item' := by
  obtain ⟨v, hv, hr⟩ := bind_eq_ok.1 h
  rcases token_cases hl hbal with ht | ⟨x, ht, hocc, hx⟩
  · rw [ht] at hv
    exact absurd hv (hL.empty_fails v)
  · rw [ht] at hv hr
    exact replaceWith_progress hocc hx (fun s hs => hL.no_lbrace x s (hs ▸ hv)) hbal hr

/-- **The retry is never taken**: the first replacement always changes the
string. -/
theorem substPass_eq_directPass (hL : TokenLookup L) (hl : '{' ∈ item) (hbal : Balanced item) :
    substPass L G item = directPass L G item := by
  show (directPass L G item >>= _) = directPass L G item
  cases h : directPass L G item with
  | error e => rfl
  | ok item' =>
    have hne : item' ≠ item := fun he => by
      have := (directPass_progress hL hl hbal h).1
      rw [he] at this
      exact lt_irrefl _ this
    exact if_neg hne

end Pass

/-! ## The loop -/

section Loop

variable {P P' : List Char → Except Fault (List Char)}

theorem substitute_lbrace : ∀ (m : Nat) (item s : List Char), substitute P m item = .ok s → '{' ∉ s
  | 0, item, s, h => by
    unfold substitute at h
    split at h
    · cases h
    · cases h; assumption
  | m + 1, item, s, h => by
    rw [substitute_succ] at h
    split at h
    · obtain ⟨s', -, h'⟩ := bind_eq_ok.1 h
      exact substitute_lbrace m s' s h'
    · cases h; assumption

/-- Two passes that agree on balanced strings, one of which keeps them
balanced, run the same loop. -/
theorem substitute_congr (hP : ∀ s, Balanced s → '{' ∈ s → P s = P' s)
    (hI : ∀ s s', Balanced s → '{' ∈ s → P s = .ok s' → Balanced s') :
    ∀ (m : Nat) (item : List Char), Balanced item → substitute P m item = substitute P' m item
  | 0, _, _ => rfl
  | m + 1, item, hb => by
    rw [substitute_succ, substitute_succ]
    split
    · rename_i hl
      rw [← hP item hb hl]
      cases h : P item with
      | error e => rfl
      | ok s' => exact substitute_congr hP hI m s' (hI item s' hb hl h)
    · rfl

/-- **The loop ends within one pass per `{`**: past that, more passes
change nothing. -/
theorem substitute_eq_of_lt
    (hP : ∀ s s', Balanced s → '{' ∈ s → P s = .ok s' → s'.count '{' < s.count '{' ∧ Balanced s') :
    ∀ (m₁ m₂ : Nat) (item : List Char), Balanced item → item.count '{' < m₁ →
      item.count '{' < m₂ → substitute P m₁ item = substitute P m₂ item
  | 0, _, _, _, h, _ => absurd h (Nat.not_lt_zero _)
  | _, 0, _, _, _, h => absurd h (Nat.not_lt_zero _)
  | m₁ + 1, m₂ + 1, item, hb, h₁, h₂ => by
    rw [substitute_succ, substitute_succ]
    split
    · rename_i hl
      cases h : P item with
      | error e => rfl
      | ok s' =>
        obtain ⟨hlt, hb'⟩ := hP item s' hb hl h
        exact substitute_eq_of_lt hP m₁ m₂ s' hb' (by omega) (by omega)
    · rfl

end Loop

/-! ## What lookups answer -/

section Answers

variable {pass : Pass} {root : List (List Char × Node)}

theorem finish_str_lbrace {loop : List Char → Except Fault (List Char)}
    (hloop : ∀ x s, loop x = .ok s → '{' ∉ s) {key : List Char} {plat : Option (List Char)}
    {v : Value} {s : List Char} (h : finish loop key plat v = .ok (.node (.str s))) : '{' ∉ s := by
  rcases v with _ | _ | ⟨s₀ | _ | _ | _⟩ <;> simp only [finish] at h <;> try cases h
  split_ifs at h <;> try cases h
  obtain ⟨s', -, h⟩ := bind_eq_ok.1 h
  split at h
  · obtain ⟨s'', hs'', hs⟩ := map_eq_ok.1 h
    cases hs
    exact hloop _ _ hs''
  · cases h

/-- **No string a lookup answers holds a `{`**: the loop only stops on
one that has none. -/
theorem lookupWith_str_lbrace {n : Nat} {self : Agg} {key : List Char} {plat : Option (List Char)}
    {noneAllowed : Bool} {s : List Char}
    (h : lookupWith pass root n self key plat noneAllowed = .ok (.node (.str s))) : '{' ∉ s := by
  cases n with
  | zero => cases h
  | succ n =>
    rw [lookupWith_succ] at h
    obtain ⟨⟨d, item⟩, -, h⟩ := bind_eq_ok.1 h
    obtain ⟨v, hv, hc⟩ := bind_eq_ok.1 h
    exact finish_str_lbrace (substitute_lbrace n) (checkNone_eq_ok hc ▸ hv)

/-- The empty key of an aggregate without it is `None`, which a nested
lookup does not allow. -/
theorem lookupWith_empty_key {n : Nat} {d : Agg} {plat : Option (List Char)} (hd : d [] = none)
    (v : Value) : lookupWith pass root n d [] plat false ≠ .ok v := by
  cases n with
  | zero => exact fun h => by cases h
  | succ n =>
    have : lookupWith pass root (n + 1) d [] plat false = .error (.abort (.notFound [] plat)) := by
      simp [lookupWith_succ, walkOf, subPlat, walk_cons, hd, finish, checkNone,
        show List.splitOn '.' ([] : List Char) = [[]] from rfl]
    rw [this]
    exact fun h => by cases h

theorem tokenLookup_of_noEmptyKey {n : Nat} {d : Agg} {plat : Option (List Char)}
    (hd : d.NoEmptyKey) : TokenLookup fun k => lookupWith pass root n d k plat false :=
  ⟨fun _ _ h => lookupWith_str_lbrace h, lookupWith_empty_key hd.empty⟩

theorem resolveRef_noEmptyKey {L : List Char → Except Fault Value}
    (hL : ∀ x v, L x = .ok v → v.NoEmptyKey) {n : Node} (hn : n.NoEmptyKey) {w : Value}
    (h : resolveRef L n = .ok w) : w.NoEmptyKey := by
  rcases n with s | _ | _ | _
  · simp only [resolveRef] at h
    split at h
    · exact hL _ _ h
    · cases h
      exact fun _ h => by cases h; exact hn
  all_goals cases h; exact fun _ h => by cases h; exact hn

theorem walk_noEmptyKey {N : Agg → List Char → Except Fault Value}
    (hN : ∀ d x v, d.NoEmptyKey → N d x = .ok v → v.NoEmptyKey) :
    ∀ (ks : List (List Char)) (lvl d : Agg) (item : Value) (d' : Agg) (v : Value),
      lvl.NoEmptyKey → d.NoEmptyKey → item.NoEmptyKey → walk N lvl d item ks = .ok (d', v) →
      d'.NoEmptyKey ∧ v.NoEmptyKey
  | [], _, _, _, _, _, _, hd, hi, h => by cases h; exact ⟨hd, hi⟩
  | k :: ks, lvl, d, item, d', v, hl, hd, hi, h => by
    rw [walk_cons] at h
    cases hk : lvl k <|> d k with
    | none =>
      rw [hk] at h
      cases h
      exact ⟨hd, fun _ h => by cases h⟩
    | some n =>
      rw [hk] at h
      have hn : n.NoEmptyKey := by
        cases hlk : lvl k with
        | none => rw [hlk] at hk; exact hd.values k n hk
        | some m => rw [hlk] at hk; cases hk; exact hl.values k _ hlk
      obtain ⟨w, hw, h⟩ := bind_eq_ok.1 h
      have hw' := resolveRef_noEmptyKey (hN d · · hd) hn hw
      rcases w with _ | _ | ⟨_ | _ | _ | kvs⟩
      case dict =>
        have hkvs := hw' _ rfl
        exact walk_noEmptyKey hN ks _ _ _ d' v (Agg.noEmptyKey_ofDict hkvs)
          (Agg.noEmptyKey_assimilate hd hkvs) hw' h
      all_goals exact walk_noEmptyKey hN ks _ _ _ d' v hl hd hw' h

theorem finish_noEmptyKey {loop : List Char → Except Fault (List Char)} {key : List Char}
    {plat : Option (List Char)} {item v : Value} (hi : item.NoEmptyKey)
    (h : finish loop key plat item = .ok v) : v.NoEmptyKey := by
  rcases item with _ | _ | ⟨_ | _ | _ | _⟩ <;> simp only [finish] at h
  case str =>
    split_ifs at h <;> try (cases h; exact fun _ h => by cases h)
    obtain ⟨s', -, h⟩ := bind_eq_ok.1 h
    split at h
    · obtain ⟨_, -, rfl⟩ := map_eq_ok.1 h
      exact fun _ h => by cases h; exact .str _
    · cases h
  all_goals cases h; exact hi

/-- **A lookup on an aggregate without the empty key answers a value
without one.** -/
theorem lookupWith_noEmptyKey :
    ∀ (n : Nat) (self : Agg) (key : List Char) (plat : Option (List Char)) (noneAllowed : Bool)
      (v : Value), self.NoEmptyKey → lookupWith pass root n self key plat noneAllowed = .ok v →
      v.NoEmptyKey
  | 0, _, _, _, _, _, _, h => by cases h
  | n + 1, self, key, plat, noneAllowed, v, hs, h => by
    rw [lookupWith_succ] at h
    obtain ⟨⟨d, item⟩, hw, h⟩ := bind_eq_ok.1 h
    obtain ⟨path, -, hw⟩ := bind_eq_ok.1 hw
    have hwalk := walk_noEmptyKey (fun d x v hd hv => lookupWith_noEmptyKey n d x plat false v hd hv)
      _ _ _ _ _ _ hs hs (fun _ h => by cases h) hw
    obtain ⟨w, hf, hc⟩ := bind_eq_ok.1 h
    rw [checkNone_eq_ok hc]
    exact finish_noEmptyKey hwalk.2 hf

theorem walkOf_noEmptyKey {n : Nat} {self : Agg} {key : List Char} {plat : Option (List Char)}
    {d : Agg} {item : Value} (hs : self.NoEmptyKey)
    (h : walkOf pass root n self key plat = .ok (d, item)) : d.NoEmptyKey :=
  have ⟨_, _, hw⟩ := bind_eq_ok.1 h
  (walk_noEmptyKey (fun d x v hd hv => lookupWith_noEmptyKey n d x plat false v hd hv)
    _ _ _ _ _ _ hs hs (fun _ h => by cases h) hw).1

end Answers

/-! ## The retry is dead -/

section Retry

variable {root : List (List Char × Node)}

theorem walk_congr_of_noEmptyKey {N N' : Agg → List Char → Except Fault Value}
    (hNN : ∀ d, d.NoEmptyKey → N d = N' d) (hN : ∀ d x v, d.NoEmptyKey → N d x = .ok v → v.NoEmptyKey) :
    ∀ (ks : List (List Char)) (lvl d : Agg) (item : Value), lvl.NoEmptyKey → d.NoEmptyKey →
      walk N lvl d item ks = walk N' lvl d item ks
  | [], _, _, _, _, _ => rfl
  | k :: ks, lvl, d, item, hl, hd => by
    rw [walk_cons, walk_cons]
    cases hk : lvl k <|> d k with
    | none => rfl
    | some n =>
      have hn : n.NoEmptyKey := by
        cases hlk : lvl k with
        | none => rw [hlk] at hk; exact hd.values k n hk
        | some m => rw [hlk] at hk; cases hk; exact hl.values k _ hlk
      dsimp only
      rw [← hNN d hd]
      refine bind_congr_ok fun w hw => ?_
      have hw' := resolveRef_noEmptyKey (hN d · · hd) hn hw
      rcases w with _ | _ | ⟨_ | _ | _ | kvs⟩
      case dict =>
        have hkvs := hw' _ rfl
        exact walk_congr_of_noEmptyKey hNN hN ks _ _ _ (Agg.noEmptyKey_ofDict hkvs)
          (Agg.noEmptyKey_assimilate hd hkvs)
      all_goals exact walk_congr_of_noEmptyKey hNN hN ks _ _ _ hl hd

theorem finish_congr {L L' : List Char → Except Fault (List Char)}
    (h : ∀ s, s.count '{' = s.count '}' → L s = L' s) (key : List Char) (plat : Option (List Char))
    (v : Value) : finish L key plat v = finish L' key plat v := by
  rcases v with _ | _ | ⟨_ | _ | _ | _⟩ <;> simp only [finish]
  split_ifs <;> try rfl
  refine bind_congr_ok fun s _ => ?_
  split_ifs with hb
  · rw [h s hb]
  · rfl

/-- **Without the retry, every lookup answers the same**, over every
aggregate without the empty key. -/
theorem lookupWith_substPass_eq (hroot : (Node.dict root).NoEmptyKey) :
    ∀ (n : Nat) (self : Agg) (key : List Char) (plat : Option (List Char)) (noneAllowed : Bool),
      self.NoEmptyKey →
      lookupWith substPass root n self key plat noneAllowed =
        lookupWith directPass root n self key plat noneAllowed
  | 0, _, _, _, _, _ => rfl
  | n + 1, self, key, plat, noneAllowed, hs => by
    have hNN : ∀ d : Agg, d.NoEmptyKey → (fun k => lookupWith substPass root n d k plat false) =
        fun k => lookupWith directPass root n d k plat false :=
      fun d hd => funext fun k => lookupWith_substPass_eq hroot n d k plat false hd
    have hwalk : walkOf substPass root n self key plat = walkOf directPass root n self key plat := by
      unfold walkOf
      congr 1
      funext path
      exact walk_congr_of_noEmptyKey hNN
        (fun d x v hd hv => lookupWith_noEmptyKey n d x plat false v hd hv) _ _ _ _ hs hs
    rw [lookupWith_succ, lookupWith_succ, hwalk]
    refine bind_congr_ok fun ⟨d, item⟩ hw => ?_
    have hd := walkOf_noEmptyKey hs hw
    have hT := @tokenLookup_of_noEmptyKey directPass root n d plat hd
    dsimp only
    rw [hNN d hd, hNN _ (Agg.noEmptyKey_ofDict hroot)]
    congr 1
    refine finish_congr (fun s hs => substitute_congr (fun s hb hl => substPass_eq_directPass hT hl hb)
      (fun s s' hb hl h => (directPass_progress hT hl hb ((substPass_eq_directPass hT hl hb) ▸ h)).2)
      n s (le_of_eq hs)) _ _ _

end Retry

/-- **The substitution loop makes progress** on a database in which no dict
has the empty key. Every lookup answers what it answers with the retry
through the root cut out; every pass that completes, against an aggregate
a lookup can build, removes a `{` and keeps the string balanced; and the
loop has ended within one pass per `{` of its string. -/
theorem substitution_progress (root : List (List Char × Node))
    (hroot : (Node.dict root).NoEmptyKey) :
    (∀ (n : Nat) (key : List Char) (plat : Option (List Char)) (noneAllowed : Bool),
      dblu root n key plat noneAllowed =
        lookupWith directPass root n (Agg.ofDict root) key plat noneAllowed) ∧
    (∀ (n : Nat) (d : Agg) (plat : Option (List Char)) (item item' : List Char),
      d.NoEmptyKey → '{' ∈ item → Balanced item →
      substPass (fun k => lookup root n d k plat false)
          (fun k => lookup root n (Agg.ofDict root) k plat false) item = .ok item' →
      item'.count '{' < item.count '{' ∧ Balanced item') ∧
    (∀ (n : Nat) (d : Agg) (plat : Option (List Char)) (item : List Char) (m : Nat),
      d.NoEmptyKey → Balanced item → item.count '{' < m →
      substitute (substPass (fun k => lookup root n d k plat false)
          (fun k => lookup root n (Agg.ofDict root) k plat false)) m item =
        substitute (substPass (fun k => lookup root n d k plat false)
          (fun k => lookup root n (Agg.ofDict root) k plat false)) (item.count '{' + 1) item) := by
  have hpass : ∀ (n : Nat) (d : Agg) (plat : Option (List Char)) (item item' : List Char),
      d.NoEmptyKey → '{' ∈ item → Balanced item →
      substPass (fun k => lookup root n d k plat false)
          (fun k => lookup root n (Agg.ofDict root) k plat false) item = .ok item' →
      item'.count '{' < item.count '{' ∧ Balanced item' := fun n d plat item item' hd hl hb h =>
    have hT := @tokenLookup_of_noEmptyKey substPass root n d plat hd
    directPass_progress hT hl hb (substPass_eq_directPass hT hl hb ▸ h)
  refine ⟨fun n key plat noneAllowed => ?_, hpass, fun n d plat item m hd hb hm => ?_⟩
  · exact lookupWith_substPass_eq hroot n _ key plat noneAllowed (Agg.noEmptyKey_ofDict hroot)
  · exact substitute_eq_of_lt (fun s s' hb hl h => hpass n d plat s s' hd hl hb h) m _ item hb hm
      (Nat.lt_succ_self _)

/-- The template example of the database's documentation, flattened. -/
def releaseDoc : List (List Char × Node) :=
  [("release".toList, .str "18.10".toList), ("title".toList, .str "Software \x7brelease\x7d".toList)]

theorem releaseDoc_no_retry : (Node.dict releaseDoc).NoEmptyKey ∧
    ∀ (n : Nat) (key : List Char) (plat : Option (List Char)) (noneAllowed : Bool),
      dblu releaseDoc n key plat noneAllowed =
        lookupWith directPass releaseDoc n (Agg.ofDict releaseDoc) key plat noneAllowed :=
  have h : (Node.dict releaseDoc).NoEmptyKey := .dict _ (by decide) fun kv hkv => by
    simp only [releaseDoc, List.mem_cons, List.mem_singleton, List.not_mem_nil, or_false] at hkv
    rcases hkv with rfl | rfl <;> exact .str _
  ⟨h, (substitution_progress releaseDoc h).1⟩

end Database

end ArmPlat
