import ArmPlat.Database.Loop
/-!
# Templates

A string `t0{x1}t1…{xn}tn` with brace-free text and keys, each `xi`
resolving to a brace-free string `vi`, comes out of the loop as
`t0 v1 t1 … vn tn`: each pass takes the first token, and `str.replace`
puts `vi` in for every copy of it at once (`substitute_render`).

What reaches the loop is the string after `subPlat`, which replaces every
`@` of the whole string, text included, by the context, and aborts when
there is an `@` and no context. So the text comes out with its `@`s
substituted (`template_expansion`), and a string with an `@` in its text
and no context is an error (`dblu_atTextDoc`).
-/

namespace ArmPlat

namespace Database

open Py

/-- Neither `{` nor `}`. -/
def BraceFree (s : List Char) : Prop :=
  '{' ∉ s ∧ '}' ∉ s

instance : DecidablePred BraceFree := fun _ => inferInstanceAs (Decidable (_ ∧ _))

/-- A piece of the string in the loop: text, or a token `{x}` not yet
replaced. -/
inductive Piece where
  | text (t : List Char)
  | token (x : List Char)

namespace Piece

def render : Piece → List Char
  | text t => t
  | token x => '{' :: (x ++ ['}'])

/-- The piece with every token replaced by `val` of its key. -/
def expand (val : List Char → List Char) : Piece → List Char
  | text t => t
  | token x => val x

/-- Text and keys without braces. -/
def Plain : Piece → Prop
  | text t => BraceFree t
  | token x => BraceFree x

def tokens : Piece → Nat
  | text _ => 0
  | token _ => 1

/-- The number of tokens among the pieces. -/
def tokenCount : List Piece → Nat
  | [] => 0
  | p :: ps => p.tokens + tokenCount ps

/-- What replacing the token `{x}` by `v` does to a piece. -/
def subst (x v : List Char) : Piece → Piece
  | text t => text t
  | token y => if y = x then text v else token y

theorem count_render {p : Piece} (hp : p.Plain) :
    p.render.count '{' = p.tokens ∧ p.render.count '}' = p.tokens := by
  cases p with
  | text t => simp [render, tokens, List.count_eq_zero.2 hp.1, List.count_eq_zero.2 hp.2]
  | token x => simp [render, tokens, List.count_eq_zero.2 hp.1, List.count_eq_zero.2 hp.2]

theorem expand_subst {val : List Char → List Char} (x : List Char) (p : Piece) :
    (p.subst x (val x)).expand val = p.expand val := by
  cases p with
  | text t => rfl
  | token y => by_cases h : y = x <;> simp [subst, expand, h]

theorem plain_subst {x v : List Char} (hv : BraceFree v) {p : Piece} (hp : p.Plain) :
    (p.subst x v).Plain := by
  cases p with
  | text t => exact hp
  | token y => by_cases h : y = x <;> simp only [subst, h, if_true, if_false] <;> assumption

theorem mem_tokens_of_subst {x v y : List Char} {p : Piece} (h : p.subst x v = token y) :
    p = token y := by
  cases p with
  | text t => cases h
  | token z => by_cases hz : z = x <;> simp_all [subst]

end Piece

section Pieces

variable {ps : List Piece}

/-- Plain pieces hold one `{` and one `}` per token. -/
theorem count_render (hps : ∀ p ∈ ps, p.Plain) :
    (ps.flatMap Piece.render).count '{' = Piece.tokenCount ps ∧
      (ps.flatMap Piece.render).count '}' = Piece.tokenCount ps := by
  induction ps with
  | nil => exact ⟨rfl, rfl⟩
  | cons p ps ih =>
    have hp := Piece.count_render (hps p (List.mem_cons_self p ps))
    have ih' := ih fun q hq => hps q (List.mem_cons_of_mem p hq)
    simp only [List.flatMap_cons, List.count_append, Piece.tokenCount, hp.1, hp.2,
      ih'.1, ih'.2, and_self]

/-- **One token replaced throughout**: `str.replace` of `{x}` by `v` in the
rendered pieces is the rendering of the pieces with `x` substituted. -/
theorem replaceScan_render {x v : List Char} (hx : BraceFree x) (hps : ∀ p ∈ ps, p.Plain) :
    replaceScan ('{' :: (x ++ ['}'])) v 0 (ps.flatMap Piece.render) =
      (ps.map (Piece.subst x v)).flatMap Piece.render := by
  induction ps with
  | nil => rfl
  | cons p ps ih =>
    have ih' := ih fun q hq => hps q (List.mem_cons_of_mem p hq)
    have hp := hps p (List.mem_cons_self p ps)
    cases p with
    | text t =>
      simp only [List.flatMap_cons, List.map_cons, Piece.render, Piece.subst]
      rw [replaceScan_append_of_not_mem hp.1, ih']
    | token y =>
      simp only [List.flatMap_cons, List.map_cons, Piece.render, Piece.subst, List.cons_append,
        List.append_assoc, List.singleton_append, List.nil_append]
      rw [replaceScan_token hx.2 hp.1 hp.2, ih']
      split <;> simp [Piece.render]

/-- A token and the text before it: where the first `{` of plain pieces
lies. -/
theorem exists_first_token (hps : ∃ x, Piece.token x ∈ ps) :
    ∃ pre x rest, ps = pre ++ Piece.token x :: rest ∧ ∀ p ∈ pre, p.tokens = 0 := by
  induction ps with
  | nil => obtain ⟨_, h⟩ := hps; cases h
  | cons p ps ih =>
    cases p with
    | token x => exact ⟨[], x, ps, rfl, by simp⟩
    | text t =>
      obtain ⟨pre, x, rest, rfl, hpre⟩ := ih (by
        obtain ⟨y, hy⟩ := hps
        exact ⟨y, (List.mem_cons.1 hy).resolve_left (by simp)⟩)
      exact ⟨Piece.text t :: pre, x, rest, rfl, by
        simpa [Piece.tokens] using hpre⟩

theorem render_eq_expand {val : List Char → List Char} (h : ∀ p ∈ ps, p.tokens = 0) :
    ps.flatMap Piece.render = ps.flatMap (Piece.expand val) :=
  List.flatMap_congr fun p hp => by
    cases p with
    | text t => rfl
    | token x => cases h _ hp

theorem braceFree_flatMap {α : Type} {l : List α} {f : α → List Char}
    (h : ∀ a ∈ l, BraceFree (f a)) : BraceFree (l.flatMap f) :=
  ⟨fun hm => by obtain ⟨a, ha, hc⟩ := List.mem_flatMap.1 hm; exact (h a ha).1 hc,
    fun hm => by obtain ⟨a, ha, hc⟩ := List.mem_flatMap.1 hm; exact (h a ha).2 hc⟩

theorem braceFree_render (h : ∀ p ∈ ps, p.tokens = 0) (hps : ∀ p ∈ ps, p.Plain) :
    BraceFree (ps.flatMap Piece.render) :=
  braceFree_flatMap fun p hp => by
    cases p with
    | text t => exact hps _ hp
    | token x => cases h _ hp

/-- **The loop over plain pieces**: with every key looked up to a
brace-free string and fuel past the number of tokens, it answers the
pieces with their tokens replaced. -/
theorem substitute_render {L G : List Char → Except Fault Value} {val : List Char → List Char} :
    ∀ (m : Nat) (ps : List Piece), (∀ p ∈ ps, p.Plain) →
      (∀ x, Piece.token x ∈ ps → L x = .ok (.node (.str (val x))) ∧ BraceFree (val x)) →
      Piece.tokenCount ps < m →
      substitute (substPass L G) m (ps.flatMap Piece.render) = .ok (ps.flatMap (Piece.expand val))
  | 0, _, _, _, h => absurd h (Nat.not_lt_zero _)
  | m + 1, ps, hps, hval, hm => by
    rw [substitute_succ]
    by_cases htok : ∃ x, Piece.token x ∈ ps
    · obtain ⟨pre, x, rest, rfl, hpre⟩ := exists_first_token htok
      have hmem : Piece.token x ∈ pre ++ Piece.token x :: rest := by simp
      have hx := hps _ hmem
      obtain ⟨hLx, hvx⟩ := hval x hmem
      have hpre' := braceFree_render hpre fun p hp => hps p (by simp [hp])
      set ps := pre ++ Piece.token x :: rest
      have hsplit : ps.flatMap Piece.render =
          pre.flatMap Piece.render ++ '{' :: x ++ '}' :: rest.flatMap Piece.render := by
        simp [ps, Piece.render]
      have hocc : '{' :: (x ++ ['}']) <:+: ps.flatMap Piece.render :=
        ⟨pre.flatMap Piece.render, rest.flatMap Piece.render, by simp [hsplit]⟩
      set ps' := ps.map (Piece.subst x (val x))
      have hrep : replace (ps.flatMap Piece.render) ('{' :: (x ++ ['}'])) (val x) =
          ps'.flatMap Piece.render := by
        rw [replace, if_neg (List.cons_ne_nil _ _), replaceScan_render hx hps]
      have hlt : (ps'.flatMap Piece.render).count '{' < (ps.flatMap Piece.render).count '{' :=
        hrep ▸ count_replace_lt (List.mem_cons_self _ _) (List.count_eq_zero.2 hvx.1) hocc
      have hps' : ∀ p ∈ ps', p.Plain := fun p hp => by
        obtain ⟨q, hq, rfl⟩ := List.mem_map.1 hp
        exact Piece.plain_subst hvx (hps q hq)
      have hpass : substPass L G (ps.flatMap Piece.render) = .ok (ps'.flatMap Piece.render) := by
        have hT : token (ps.flatMap Piece.render) = (x, '{' :: (x ++ ['}'])) := by
          rw [hsplit, token_of_lbrace_first hpre'.1 hpre'.2 hx.2]
          simp
        have hne : ps'.flatMap Piece.render ≠ ps.flatMap Piece.render := fun h => by
          rw [h] at hlt
          exact lt_irrefl _ hlt
        simp only [substPass, hT, hLx, ok_bind, replaceWith, hrep, if_neg hne]
      rw [if_pos (hocc.subset (List.mem_cons_self _ _)), hpass, ok_bind,
        substitute_render m ps' hps' (fun y hy => by
          obtain ⟨q, hq, hqy⟩ := List.mem_map.1 hy
          exact hval y (Piece.mem_tokens_of_subst hqy ▸ hq))
          (by rw [← (count_render hps').1, ← (count_render hps).1] at *; omega),
        List.flatMap_map]
      simp only [Piece.expand_subst]
    · have h0 : ∀ p ∈ ps, p.tokens = 0 := fun p hp => by
        cases p with
        | text t => rfl
        | token x => exact absurd ⟨x, hp⟩ htok
      rw [if_neg (braceFree_render h0 hps).1, render_eq_expand h0]

end Pieces


/-! ## `@` over the whole string -/

/-- What `subPlat` makes of a string it does not reject. -/
def subAt : Option (List Char) → List Char → List Char
  | none, t => t
  | some p, t => replace t ['@'] p

section SubAt

variable {c : Option (List Char)}

theorem subAt_eq_flatMap (c : Option (List Char)) (s : List Char) :
    subAt c s = s.flatMap fun a => if a = '@' then c.getD ['@'] else [a] := by
  cases c with
  | none =>
    simp only [subAt, Option.getD_none]
    induction s with
    | nil => rfl
    | cons a s ih => by_cases h : a = '@' <;> simp [h, ← ih]
  | some p => simp [subAt, replace_single]

@[simp] theorem subAt_nil : subAt c [] = [] := by
  cases c <;> rfl

theorem subAt_append (s t : List Char) : subAt c (s ++ t) = subAt c s ++ subAt c t := by
  simp [subAt_eq_flatMap]

theorem subAt_cons {a : Char} (ha : a ≠ '@') (s : List Char) : subAt c (a :: s) = a :: subAt c s := by
  simp [subAt_eq_flatMap, ha]

theorem subAt_of_not_mem {s : List Char} (h : '@' ∉ s) : subAt c s = s := by
  induction s with
  | nil => exact subAt_nil
  | cons a s ih =>
    rw [subAt_cons (fun e => h (e ▸ List.mem_cons_self a s)), ih fun hs => h (List.mem_cons_of_mem a hs)]

theorem braceFree_subAt (hc : ∀ p, c = some p → BraceFree p) {s : List Char} (hs : BraceFree s) :
    BraceFree (subAt c s) := by
  rw [subAt_eq_flatMap]
  refine braceFree_flatMap fun a ha => ?_
  split
  · cases c with
    | none => simp [BraceFree]
    | some p => exact hc p rfl
  · exact ⟨fun h => hs.1 (by rwa [List.mem_singleton.1 h]),
      fun h => hs.2 (by rwa [List.mem_singleton.1 h])⟩

/-- `subPlat` is `subAt`, unless it meets an `@` with no context. -/
theorem subPlat_eq_subAt {key s : List Char} (h : c = none → '@' ∉ s) :
    subPlat key c s = .ok (subAt c s) := by
  cases c with
  | none => simp [subPlat, subAt, h rfl]
  | some p =>
    by_cases ha : '@' ∈ s
    · simp [subPlat, subAt, ha]
    · rw [subPlat, if_neg ha, subAt_of_not_mem ha]

end SubAt

/-! ## Templates and what they expand to -/

/-- The string `t0{x1}t1…{xn}tn`. -/
def template (t0 : List Char) (toks : List (List Char × List Char)) : List Char :=
  t0 ++ toks.flatMap fun (x, t) => '{' :: (x ++ '}' :: t)

/-- `t0 v1 t1 … vn tn`, with `vi = val xi` and the context put in for `@`,
keys included. -/
def expansion (c : Option (List Char)) (t0 : List Char) (toks : List (List Char × List Char))
    (val : List Char → List Char) : List Char :=
  subAt c t0 ++ toks.flatMap fun (x, t) => val (subAt c x) ++ subAt c t

/-- The pieces of a template. -/
def pieces (t0 : List Char) (toks : List (List Char × List Char)) : List Piece :=
  .text t0 :: toks.flatMap fun (x, t) => [.token x, .text t]

section Template

variable {c : Option (List Char)} {t0 : List Char} {toks : List (List Char × List Char)}

theorem template_cons (x t : List Char) :
    template t0 ((x, t) :: toks) = t0 ++ '{' :: (x ++ '}' :: template t toks) := by
  simp [template]

theorem template_eq_render : template t0 toks = (pieces t0 toks).flatMap Piece.render := by
  simp [template, pieces, List.flatMap_assoc, Piece.render]

theorem expansion_eq_expand (val : List Char → List Char) :
    expansion c t0 toks val = (pieces (subAt c t0) (toks.map fun (x, t) => (subAt c x, subAt c t))).flatMap
      (Piece.expand val) := by
  simp [expansion, pieces, List.flatMap_assoc, List.flatMap_map, Piece.expand]

theorem subAt_template : subAt c (template t0 toks) =
    template (subAt c t0) (toks.map fun (x, t) => (subAt c x, subAt c t)) := by
  induction toks generalizing t0 with
  | nil => simp [template]
  | cons xt toks ih =>
    obtain ⟨x, t⟩ := xt
    rw [template_cons, List.map_cons, template_cons, ← ih, subAt_append,
      subAt_cons (by decide : '{' ≠ '@'), subAt_append, subAt_cons (by decide : '}' ≠ '@')]

theorem pieces_cons (x t : List Char) :
    pieces t0 ((x, t) :: toks) = .text t0 :: .token x :: pieces t toks :=
  rfl

theorem tokens_pieces : Piece.tokenCount (pieces t0 toks) = toks.length := by
  induction toks generalizing t0 with
  | nil => rfl
  | cons xt toks ih =>
    obtain ⟨x, t⟩ := xt
    rw [pieces_cons, Piece.tokenCount, Piece.tokenCount, ih]
    simp only [Piece.tokens, List.length_cons]
    omega

theorem mem_pieces {p : Piece} (hp : p ∈ pieces t0 toks) :
    p = .text t0 ∨ ∃ x t, (x, t) ∈ toks ∧ (p = .token x ∨ p = .text t) := by
  simp only [pieces, List.mem_cons, List.mem_flatMap, List.mem_singleton, List.not_mem_nil,
    or_false] at hp
  rcases hp with rfl | ⟨⟨x, t⟩, hxt, hp⟩
  · exact .inl rfl
  · exact .inr ⟨x, t, hxt, hp⟩

theorem plain_pieces (ht0 : BraceFree t0) (htoks : ∀ x t, (x, t) ∈ toks → BraceFree x ∧ BraceFree t) :
    ∀ p ∈ pieces t0 toks, p.Plain := fun p hp => by
  rcases mem_pieces hp with rfl | ⟨x, t, hxt, rfl | rfl⟩
  exacts [ht0, (htoks x t hxt).1, (htoks x t hxt).2]

end Template

/-! ## The lookup of a template -/

section Lookup

variable {root : List (List Char × Node)} {self d : Agg} {key : List Char}
  {c : Option (List Char)} {n₀ : Nat} {t0 : List Char} {toks : List (List Char × List Char)}
  {val : List Char → List Char}

/-- **A template comes out expanded, its text `@`-substituted.** When the
walk of `key` ends at `t0{x1}t1…{xn}tn` with brace-free text and keys, and
each key with `@` replaced by the context looks up, against the aggregate
the walk ends with, to a brace-free string, the lookup aborts if there is
an `@` anywhere in the string and no context, and otherwise answers the
expansion, in which the text has its `@`s replaced as the keys do. -/
theorem template_expansion (noneAllowed : Bool) (hc : ∀ p, c = some p → BraceFree p)
    (hwalk : walkOf substPass root n₀ self key c = .ok (d, .node (.str (template t0 toks))))
    (hkey : '{' :: key ++ ['}'] ≠ template t0 toks) (hnull : template t0 toks ≠ "null".toList)
    (htrue : template t0 toks ≠ "true".toList) (ht0 : BraceFree t0)
    (htoks : ∀ x t, (x, t) ∈ toks → BraceFree x ∧ BraceFree t ∧ BraceFree (val (subAt c x)) ∧
      Outcome root d (subAt c x) c false (.ok (.node (.str (val (subAt c x)))))) :
    (c = none → '@' ∈ template t0 toks →
      Outcome root self key c noneAllowed (.error (.abort (.invalidContext key none)))) ∧
    ((c = none → '@' ∉ template t0 toks) →
      Outcome root self key c noneAllowed (.ok (.node (.str (expansion c t0 toks val))))) := by
  refine ⟨fun hnone hat => ?_, fun hat => ?_⟩
  · subst hnone
    refine @outcome_of_eq root self key none noneAllowed (n₀ + 1) _ ?_ fun h => by cases h
    rw [lookup, lookupWith_of_walk hwalk, finish_str hkey hnull htrue, subPlat, if_pos hat]
    rfl
  · set toks' := toks.map fun (x, t) => (subAt c x, subAt c t)
    set ps := pieces (subAt c t0) toks'
    have hps : ∀ p ∈ ps, p.Plain := plain_pieces (braceFree_subAt hc ht0) fun x' t' h => by
      obtain ⟨⟨x, t⟩, hxt, he⟩ := List.mem_map.1 h
      cases he
      exact ⟨braceFree_subAt hc (htoks x t hxt).1, braceFree_subAt hc (htoks x t hxt).2.1⟩
    have hL : ∀ k ∈ toks.map fun xt => subAt c xt.1,
        Outcome root d k c false (.ok (.node (.str (val k)))) := fun k hk => by
      obtain ⟨⟨x, t⟩, hxt, rfl⟩ := List.mem_map.1 hk
      exact (htoks x t hxt).2.2.2
    obtain ⟨N, hN⟩ := outcome_forall_mem hL
    have htokval : ∀ m, N ≤ m → ∀ x, Piece.token x ∈ ps →
        lookupWith substPass root m d x c false = .ok (.node (.str (val x))) ∧ BraceFree (val x) := by
      intro m hm x' hx'
      rcases mem_pieces hx' with h | ⟨y, t', hyt, h | h⟩ <;> cases h
      obtain ⟨⟨x, t⟩, hxt, he⟩ := List.mem_map.1 hyt
      cases he
      exact ⟨hN m hm _ (List.mem_map_of_mem _ hxt), (htoks x t hxt).2.2.1⟩
    have hcount := count_render hps
    rw [tokens_pieces, List.length_map] at hcount
    refine @outcome_of_eq root self key c noneAllowed (max n₀ (max N (toks.length + 1)) + 1) _ ?_
      fun h => by cases h
    set m := max n₀ (max N (toks.length + 1))
    have hloop := @substitute_render (fun k => lookupWith substPass root m d k c false)
      (fun k => lookupWith substPass root m (Agg.ofDict root) k c false) val m ps hps
      (htokval m ((Nat.le_max_left _ _).trans (Nat.le_max_right _ _)))
      (by rw [tokens_pieces, List.length_map]; omega)
    rw [lookup, lookupWith_of_walk (walkOf_eq_of_le substPass_mono (Nat.le_max_left _ _) hwalk),
      finish_str hkey hnull htrue, subPlat_eq_subAt hat, ok_bind, subAt_template, template_eq_render,
      if_pos (hcount.1.trans hcount.2.symm), hloop, expansion_eq_expand]
    rfl

/-- `title` is `Software {release}`, and `release` is `18.10`. -/
theorem releaseDoc_title :
    Outcome releaseDoc (Agg.ofDict releaseDoc) "title".toList none false
      (.ok (.node (.str (expansion none "Software ".toList [("release".toList, [])]
        fun _ => "18.10".toList)))) :=
  (@template_expansion releaseDoc (Agg.ofDict releaseDoc) (Agg.ofDict releaseDoc) "title".toList
    none 0 "Software ".toList [("release".toList, [])] (fun _ => "18.10".toList) false
    (fun _ h => by cases h) rfl (by decide) (by decide) (by decide) (by decide)
    (fun x t h => by
      obtain ⟨rfl, rfl⟩ := Prod.mk.inj (List.mem_singleton.1 h)
      exact ⟨by decide, by decide, by decide,
        @outcome_of_eq _ _ _ _ _ 1 _ rfl fun h => by cases h⟩)).2 fun _ => by decide

end Lookup

/-- `a` is `x@y`: an `@` in the text. -/
def atTextDoc : List (List Char × Node) :=
  [(['a'], .str ['x', '@', 'y'])]

/-- With no context the lookup of `x@y` aborts, and with the context `p` it
answers `xpy`: neither keeps the text. -/
theorem dblu_atTextDoc :
    (Outcome atTextDoc (Agg.ofDict atTextDoc) ['a'] none false
        (.error (.abort (.invalidContext ['a'] none))) ∧
      ¬ Outcome atTextDoc (Agg.ofDict atTextDoc) ['a'] none false (.ok (.node (.str ['x', '@', 'y'])))) ∧
    (Outcome atTextDoc (Agg.ofDict atTextDoc) ['a'] (some ['p']) false
        (.ok (.node (.str ['x', 'p', 'y']))) ∧
      ¬ Outcome atTextDoc (Agg.ofDict atTextDoc) ['a'] (some ['p']) false
        (.ok (.node (.str ['x', '@', 'y'])))) := by
  have h₁ : Outcome atTextDoc (Agg.ofDict atTextDoc) ['a'] none false
      (.error (.abort (.invalidContext ['a'] none))) :=
    @outcome_of_eq _ _ _ _ _ 1 _ rfl fun h => by cases h
  have h₂ : Outcome atTextDoc (Agg.ofDict atTextDoc) ['a'] (some ['p']) false
      (.ok (.node (.str ['x', 'p', 'y']))) :=
    @outcome_of_eq _ _ _ _ _ 1 _ rfl fun h => by cases h
  exact ⟨⟨h₁, fun h => by cases h₁.unique h⟩, h₂, fun h => by cases h₂.unique h⟩

end Database

end ArmPlat
