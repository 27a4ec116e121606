import Mathlib.Order.Defs.PartialOrder
import Scriptor.Proofs.Lines
import Scriptor.Proofs.Reading.Runs

namespace Scriptor

instance : Preorder Position where
  le p q := p.line < q.line ∨ p.line = q.line ∧ p.column ≤ q.column
  le_refl p := .inr ⟨rfl, Nat.le_refl _⟩
  le_trans p q r hpq hqr := by omega

namespace Position

theorem le_next (p : Position) (c : Char) : p ≤ p.next c := by
  rw [next]
  split
  next => exact .inl (Nat.lt_succ_self _)
  next => exact .inr ⟨rfl, Nat.le_succ _⟩

theorem le_after (p : Position) (text : List Char) : p ≤ p.after text := by
  induction text generalizing p with
  | nil => exact le_refl p
  | cons c text ih => exact (p.le_next c).trans (ih (p.next c))

end Position

/-- Whether no token starts before the one in front of it has ended. -/
structure Token.Ordered (ts : List Token) : Prop where
  start_le_stop : ∀ t ∈ ts, t.span.start ≤ t.span.stop
  apart : ts.Pairwise fun t u => t.span.stop ≤ u.span.start

namespace Token.Ordered

variable {ts us : List Token}

theorem sublist (h : Ordered us) (hts : ts.Sublist us) : Ordered ts :=
  ⟨fun t ht => h.start_le_stop t (hts.subset ht), h.apart.sublist hts⟩

theorem left (h : Ordered (ts ++ us)) : Ordered ts := h.sublist (List.sublist_append_left _ _)

theorem right (h : Ordered (ts ++ us)) : Ordered us := h.sublist (List.sublist_append_right _ _)

theorem head {t : Token} (h : Ordered (t :: ts)) : Ordered [t] :=
  h.sublist (List.singleton_sublist.2 List.mem_cons_self)

theorem tail {t : Token} (h : Ordered (t :: ts)) : Ordered ts :=
  h.sublist (List.sublist_cons_self t ts)

end Token.Ordered

theorem Cursor.Lexes.ordered {cs : List Char} {start : Position} {newline : Bool} {ts : List Token}
    (h : Lexes cs start newline ts) :
    (∀ t ∈ ts, start ≤ t.span.start) ∧ Token.Ordered ts := by
  induction h with
  | @nil start newline =>
    refine ⟨List.forall_mem_singleton.2 (le_refl start),
      List.forall_mem_singleton.2 (le_refl start), ?_⟩
    exact List.pairwise_singleton _ _
  | @skip cs lexeme rest start newline p ts _ _ _ ih =>
    exact ⟨fun t ht => (start.le_after lexeme).trans (ih.1 t ht), ih.2⟩
  | @take cs lexeme rest start newline p kind value ts _ _ _ ih =>
    have hstop := start.le_after lexeme
    refine ⟨List.forall_mem_cons.2 ⟨le_refl start, fun t ht => hstop.trans (ih.1 t ht)⟩,
      ?_, ?_⟩
    · exact List.forall_mem_cons.2 ⟨hstop, ih.2.start_le_stop⟩
    · exact List.pairwise_cons.2 ⟨ih.1, ih.2.apart⟩

theorem tokenize_ordered {source file : String} {ts : List Token}
    (h : tokenize source file = .ok ts) : Token.Ordered ts :=
  (Cursor.lexes_of_tokens h).ordered.2

/-- Whether the span starts with one of the tokens and ends with one of them. -/
structure Span.On (w : List Token) (span : Span) : Prop where
  start_eq : ∃ t ∈ w, span.start = t.span.start
  stop_eq : ∃ t ∈ w, span.stop = t.span.stop
  start_le_stop : span.start ≤ span.stop

theorem Span.On.mono {w w' : List Token} {span : Span} (h : span.On w) (hw : w ⊆ w') :
    span.On w' := by
  obtain ⟨⟨t, ht, hstart⟩, ⟨u, hu, hstop⟩, hle⟩ := h
  exact ⟨⟨t, hw ht, hstart⟩, ⟨u, hw hu, hstop⟩, hle⟩

/-- Spans that are made of the tokens, one behind the other. -/
inductive Along : List Token → List Span → Prop where
  | none {w : List Token} : Along w []
  | one {w : List Token} {span : Span} : span.On w → Along w [span]
  | append {w w' : List Token} {spans spans' : List Span} : Along w spans → Along w' spans' →
      Along (w ++ w') (spans ++ spans')

namespace Along

variable {w w' : List Token} {spans : List Span}

theorem on (h : Along w spans) : ∀ span ∈ spans, span.On w := by
  induction h with
  | none => exact List.forall_mem_nil _
  | one h => exact List.forall_mem_singleton.2 h
  | append _ _ ih ih' =>
    rw [List.forall_mem_append]
    exact ⟨fun span hs => (ih span hs).mono (List.subset_append_left _ _),
      fun span hs => (ih' span hs).mono (List.subset_append_right _ _)⟩

/-- What is made of the tokens in front ends before anything made of the tokens behind starts. -/
theorem apart (h : Along w spans) (hw : Token.Ordered w) :
    spans.Pairwise fun a b => a.stop ≤ b.start := by
  induction h with
  | none => exact List.Pairwise.nil
  | one => exact List.pairwise_singleton _ _
  | append h h' ih ih' =>
    obtain ⟨hfront, hback, happart⟩ := List.pairwise_append.1 hw.apart
    rw [List.pairwise_append]
    refine ⟨ih hw.left, ih' hw.right, ?_⟩
    intro a ha b hb
    obtain ⟨t, ht, hstop⟩ := (h.on a ha).stop_eq
    obtain ⟨u, hu, hstart⟩ := (h'.on b hb).start_eq
    rw [hstop, hstart]
    exact happart t ht u hu

end Along

/-- A node of a tree: its span, and the spans of its parts in the order of the text. -/
structure Extent where
  span : Span
  parts : List Span

/-- Whether the node starts and ends with one of the tokens, and its parts lie within it and do not
overlap. -/
structure Extent.Sound (w : List Token) (n : Extent) : Prop where
  on : n.span.On w
  within : ∀ part ∈ n.parts, n.span.start ≤ part.start ∧ part.stop ≤ n.span.stop
  apart : n.parts.Pairwise fun a b => a.stop ≤ b.start

/-- Whether the spans are made of the tokens, one behind the other, and the nodes are sound. -/
structure Made (w : List Token) (spans : List Span) (nodes : List Extent) : Prop where
  along : Along w spans
  sound : ∀ n ∈ nodes, n.Sound w

namespace Made

variable {w w' : List Token} {spans spans' parts : List Span}
  {nodes nodes' : List Extent} {t : Token}

theorem none : Made w [] [] := ⟨.none, List.forall_mem_nil _⟩

theorem mono (h : ∀ n ∈ nodes, n.Sound w) (hw : w ⊆ w') : ∀ n ∈ nodes, n.Sound w' :=
  fun n hn => ⟨(h n hn).on.mono hw, (h n hn).within, (h n hn).apart⟩

theorem append (h : Made w spans nodes) (h' : Made w' spans' nodes') :
    Made (w ++ w') (spans ++ spans') (nodes ++ nodes') where
  along := h.along.append h'.along
  sound := List.forall_mem_append.2
    ⟨mono h.sound (List.subset_append_left _ _), mono h'.sound (List.subset_append_right _ _)⟩

theorem ahead (h : Made w spans nodes) : Made (t :: w) spans nodes := (none (w := [t])).append h

theorem behind (h : Made w spans nodes) : Made (w ++ w') spans nodes := by
  have happend := h.append (none (w := w'))
  rwa [List.append_nil, List.append_nil] at happend

theorem tokens (hw : Token.Ordered w) : Made w (w.map Token.span) [] := by
  induction w with
  | nil => exact none
  | cons t w ih =>
    have ht : Span.On [t] t.span :=
      ⟨⟨t, List.mem_singleton_self t, rfl⟩, ⟨t, List.mem_singleton_self t, rfl⟩,
        hw.start_le_stop t List.mem_cons_self⟩
    have hone : Made [t] [t.span] [] := ⟨.one ht, List.forall_mem_nil _⟩
    exact hone.append (ih hw.tail)

theorem cons (h : Made w spans nodes) (hw : Token.Ordered (t :: w)) :
    Made (t :: w) (t.span :: spans) nodes :=
  (tokens hw.head).append h

theorem concat (h : Made w spans nodes) (hw : Token.Ordered (w ++ [t])) :
    Made (w ++ [t]) (spans ++ [t.span]) nodes := by
  have happend := h.append (tokens hw.right)
  rwa [List.append_nil] at happend

/-- A node from the start of its first mark to the end of its last one. -/
theorem node {first last : Span} (h : Made w spans nodes) (hw : Token.Ordered w)
    (hfirst : spans.head? = some first)
    (hlast : spans.getLast? = some last) (hparts : parts.Sublist spans) :
    Made w [⟨first.start, last.stop⟩] (⟨⟨first.start, last.stop⟩, parts⟩ :: nodes) := by
  have happart := h.along.apart hw
  have hon (span : Span) (hspan : span ∈ spans) :
      span.On w ∧ first.start ≤ span.start ∧ span.stop ≤ last.stop := by
    have hspan' := h.along.on span hspan
    refine ⟨hspan', ?_, ?_⟩
    · obtain ⟨rest, rfl⟩ := List.head?_eq_some_iff.1 hfirst
      rcases List.mem_cons.1 hspan with rfl | hmem
      · exact le_refl _
      · have hle := (h.along.on first List.mem_cons_self).start_le_stop
        exact hle.trans ((List.pairwise_cons.1 happart).1 span hmem)
    · obtain ⟨front, rfl⟩ := List.getLast?_eq_some_iff.1 hlast
      rcases List.mem_append.1 hspan with hmem | hmem
      · have hle :=
          (h.along.on last (List.mem_append_right _ (List.mem_singleton_self _))).start_le_stop
        exact ((List.pairwise_append.1 happart).2.2 span hmem last
          (List.mem_singleton_self _)).trans hle
      · rw [List.mem_singleton.1 hmem]
  have hfirst' := hon first (List.mem_of_head? hfirst)
  have hlast' := hon last (List.mem_of_getLast? hlast)
  have hnode : Span.On w ⟨first.start, last.stop⟩ :=
    ⟨hfirst'.1.start_eq, hlast'.1.stop_eq, hfirst'.1.start_le_stop.trans hfirst'.2.2⟩
  refine ⟨.one hnode,
    List.forall_mem_cons.2 ⟨⟨hnode, ?_, happart.sublist hparts⟩, h.sound⟩⟩
  intro part hpart
  exact (hon part (hparts.subset hpart)).2

theorem leaf {u : Token} (hw : Token.Ordered w) (hfirst : w.head? = some t)
    (hlast : w.getLast? = some u) :
    Made w [⟨t.span.start, u.span.stop⟩] [⟨⟨t.span.start, u.span.stop⟩, []⟩] := by
  apply (tokens hw).node hw _ _ (List.nil_sublist _)
  · rw [List.head?_map, hfirst, Option.map_some]
  · rw [List.getLast?_map, hlast, Option.map_some]

theorem single (hw : Token.Ordered [t]) : Made [t] [t.span] [⟨t.span, []⟩] := leaf hw rfl rfl

end Made

theorem Separated.made {γ : Type} {tokensOf : γ → List Token} {spansOf : γ → List Span}
    {nodesOf : γ → List Extent} {cs : List γ} {ws : List Token}
    (h : Separated (cs.map tokensOf) ws) (hws : Token.Ordered ws)
    (hc : ∀ c ∈ cs, Token.Ordered (tokensOf c) → Made (tokensOf c) (spansOf c) (nodesOf c)) :
    Made ws (cs.flatMap spansOf) (cs.flatMap nodesOf) := by
  induction cs generalizing ws with
  | nil => exact .none
  | cons c cs ih =>
    obtain ⟨hmade, hrest⟩ := List.forall_mem_cons.1 hc
    rcases h.generation with ⟨hnil, rfl⟩ | ⟨comma, rest, -, hsep, rfl⟩
    · obtain rfl := List.map_eq_nil_iff.1 hnil
      rw [List.flatMap_singleton, List.flatMap_singleton]
      exact hmade hws
    · exact (hmade hws.left).append (ih hsep hws.right.tail hrest).ahead

theorem Separated.made_map {γ α : Type} {tokensOf : γ → List Token} {valueOf : γ → α}
    {span : α → Span} {nodes : α → List Extent} {cs : List γ} {ws : List Token}
    (h : Separated (cs.map tokensOf) ws) (hws : Token.Ordered ws)
    (hc : ∀ c ∈ cs, Token.Ordered (tokensOf c) →
      Made (tokensOf c) [span (valueOf c)] (nodes (valueOf c))) :
    Made ws ((cs.map valueOf).map span) ((cs.map valueOf).flatMap nodes) := by
  rw [List.map_map, List.map_eq_flatMap, List.flatMap_map]
  exact h.made hws hc

end Scriptor
