import Scriptor.Proofs.Blame
import Scriptor.Proofs.Lines
import Scriptor.Proofs.Outline
import Scriptor.Proofs.Reading.Content
import Scriptor.Proofs.Scoping

namespace Scriptor

section Places

variable {file source : String} {before text tail : List Char} {ts : List Token} {p : Position}

theorem Position.behind_le (file : String) (before : List Char) :
    (behind file before).line ≤ before.length + 1 ∧
      (behind file before).column ≤ before.length + 1 := by
  have hline : before.count '\n' ≤ before.length := List.count_le_length
  have hcolumn := (List.rtakeWhile_suffix (· != '\n') before).length_le
  rw [Nat.add_comm]
  exact ⟨Nat.add_le_add_left hline 1, Nat.add_le_add_left hcolumn 1⟩

def Position.Within (bound : Nat) (p : Position) : Prop := p.line ≤ bound ∧ p.column ≤ bound

theorem Position.Within.mono {m n : Nat} (h : p.Within m) (hmn : m ≤ n) : p.Within n :=
  ⟨h.1.trans hmn, h.2.trans hmn⟩

theorem Position.IsBy.within (h : p.IsBy source.toList file) : p.Within (source.length + 1) := by
  obtain ⟨before, after, hsource, rfl, -⟩ := h
  obtain ⟨hline, hcolumn⟩ := behind_le file before
  have hlength := congrArg List.length hsource
  rw [String.length_toList, List.length_append] at hlength
  exact ⟨by omega, by omega⟩

/-- Every token but the last one takes a character at least. -/
theorem Tiles.length_le (h : Tiles file tail before text ts) : ts.length ≤ text.length := by
  induction h with
  | nil => exact Nat.le_refl 0
  | cons _ ht _ _ _ ih =>
    have hpos := List.length_pos_of_ne_nil ht.lexeme_ne_nil
    simp only [List.length_append, List.length_cons]
    omega

theorem length_tokens_le (h : tokenize source file = .ok ts) : ts.length ≤ source.length + 1 := by
  have htokenized : Tokenized file [] source.toList (tokenize source file) :=
    Cursor.tokens_tokenized file [] source.toList
  rw [h] at htokenized
  cases htokenized with
  | ok htext htiles _ =>
    have htiled := htiles.length_le
    have hlength := congrArg List.length htext
    rw [String.length_toList, List.length_append] at hlength
    rw [List.length_append, List.length_singleton]
    omega

theorem length_atoms_le {p : Program} (h : tokenize source file = .ok ts)
    (hp : parse ts file = .ok p) : p.atoms.length ≤ source.length + 1 := by
  obtain ⟨body, s', hstatements, hbody, hpassed, -⟩ := Reader.stands_of_parse hp
  have hatoms := Stmt.atoms_body fun c hc => (hbody c hc).atoms
  have hlength := congrArg List.length hpassed.tokens_eq
  rw [Stream.tokens_ofTokens_of_eof (tokenize_ends h), List.length_append] at hlength
  calc p.atoms.length = (Token.atoms (body.flatMap Prod.fst)).length := by
        rw [hatoms, Program.atoms, hstatements]
    _ ≤ (body.flatMap Prod.fst).length := List.length_filterMap_le _ _
    _ ≤ ts.length := by omega
    _ ≤ source.length + 1 := length_tokens_le h

end Places

section Entities

theorem Check.Parameters.length_le {env env' : Env} {ps : List Parameter} {ids : List EntityId}
    (h : Check.Parameters env ps ids env') :
    ids.length ≤ (ps.flatMap Parameter.atoms).length := by
  induction h with
  | nil => exact Nat.le_refl 0
  | cons _ _ ih =>
    simp only [List.flatMap_cons, Parameter.atoms, List.length_append, List.length_cons]
    omega

theorem Assignment.Generation.declared_le {env env' : Env} {s : Assignment} {t : Typed.Stmt}
    (h : s.Generation env t env') : t.declared.length ≤ s.atoms.length := by
  have hpos : 1 ≤ s.atoms.length := by
    simp only [Assignment.atoms, List.length_append, List.length_cons]
    omega
  cases h with
  | declares => exact hpos
  | assigns | computes => exact Nat.zero_le _

mutual

/-- A statement declares no more entities than it has names for. -/
theorem Stmt.check_declared_le : (s : Stmt) → {env env' : Env} → {t : Typed.Stmt} →
    s.check env = .ok (t, env') → t.declared.length ≤ s.atoms.length
  | .assignment _, _, _, _, h => by
    cases Stmt.check_generation h with
    | assignment hs => exact hs.declared_le
  | .function _ _ _ body _ _ _, _, _, _, h => by
    cases Stmt.check_generation h with
    | function _ hps hb =>
      have hparameters := hps.length_le
      have hbody := checkBlock_declared_le body hb
      simp only [Typed.Stmt.declared, Stmt.atoms, List.length_cons, List.length_append]
      omega
  | .rangeFor _ _ body _ _, _, _, _, h => by
    cases Stmt.check_generation h with
    | rangeFor hi _ hu _ _ _ hb =>
      have hinit := hi.declared_le
      have hupdate := hu.declared_le
      have hbody := checkBlock_declared_le body hb
      simp only [Typed.Stmt.declared, Stmt.atoms, List.length_append]
      omega
  | .collectionFor _ _ _ body _, _, _, _, h => by
    cases Stmt.check_generation h with
    | collectionFor _ _ _ hb =>
      have hbody := checkBlock_declared_le body hb
      simp only [Typed.Stmt.declared, Stmt.atoms, List.length_cons, List.length_append]
      omega
  | .ret _ _, _, _, _, h => by
    cases Stmt.check_generation h with
    | ret => exact Nat.zero_le _
  | .brk _, _, _, _, h => by
    cases Stmt.check_generation h with
    | brk => exact Nat.zero_le _
  | .call _ _ _, _, _, _, h => by
    cases Stmt.check_generation h with
    | call | print | method => exact Nat.zero_le _

theorem checkBlock_declared_le :
    (ss : List Stmt) → {env env' : Env} → {ts : List Typed.Stmt} →
    checkBlock env ss = .ok (ts, env') →
    (Typed.Stmt.declaredAll ts).length ≤ (Stmt.atomsAll ss).length
  | [], _, _, _, h => by
    cases h
    exact Nat.le_refl 0
  | s :: ss, _, _, _, h => by
    obtain ⟨t, rest, next, hs, hss, rfl⟩ := checkBlock_cons h
    have hfirst := s.check_declared_le hs
    have hrest := checkBlock_declared_le ss hss
    simp only [Typed.Stmt.declaredAll, Stmt.atomsAll, List.length_append]
    omega

end

theorem Program.size_entities_le {p : Program} {t : Typed.Program} (h : p.check = .ok t) :
    t.entities.size ≤ 11 + p.atoms.length := by
  obtain ⟨env, hss, he⟩ := Program.check_generation h
  rw [he, (checkBlock_makes _ hss).size]
  exact Nat.add_le_add_left (checkBlock_declared_le _ hss) 11

end Entities

/-- No two entities have the same number, so that there are no more numbers than entities. -/
theorem Script.Writer.Names.count_le {w : Script.Writer} {named : List EntityId}
    (h : w.Names named) : w.count ≤ w.entities.size := by
  have hindices : (named.map EntityId.index).Nodup :=
    h.nodup.map fun i j hij => congrArg EntityId.mk hij
  have hsubset : named.map EntityId.index ⊆ List.range w.entities.size := by
    intro i hi
    obtain ⟨id, hid, rfl⟩ := List.mem_map.1 hi
    obtain ⟨e, he, -⟩ := Arena.isOwn_iff.1 (h.own id hid)
    exact List.mem_range.2 (Arena.lt_size_iff.2 ⟨e, he⟩)
  have hle := (List.subperm_of_subset hindices hsubset).length_le
  rwa [List.length_map, List.length_range, ← h.count_eq] at hle

section Analyzed

variable {source file : String} {t : Typed.Program}

theorem size_entities_of_analyze (h : analyze source file = .ok t) :
    t.entities.size ≤ source.length + 12 := by
  obtain ⟨ts, hts, h⟩ := bind_eq_ok_iff.1 h
  obtain ⟨p, hp, h⟩ := bind_eq_ok_iff.1 h
  have hatoms := length_atoms_le hts hp
  have hsize := Program.size_entities_le h
  omega

theorem count_of_analyze (h : analyze source file = .ok t) (simplify : Bool) :
    ∃ w, (Script.stmts (t.simplifyIf simplify).statements).run (.start t.entities) =
      .ok ((), w) ∧ w.count ≤ source.length + 12 := by
  have hwellFormed := (analyze_wellFormed h).simplifyIf simplify
  rw [Typed.Program.WellFormed, t.entities_simplifyIf] at hwellFormed
  obtain ⟨more, w, hrun, hnames, hentities, -⟩ :=
    Script.stmts_prints (worded_of_analyze h) _ hwellFormed (.start t.entities) [] rfl
      (Script.Writer.start_names _)
  refine ⟨w, hrun, hnames.count_le.trans ?_⟩
  rw [hentities]
  exact size_entities_of_analyze h

/-- For a text of fewer than `2 ^ 32 - 12` characters, words of 32 bits hold whatever is counted:
the lines and columns of tokens and of errors, the entities, and the numbers in names. -/
theorem analyze_fits (hlength : source.length + 12 < 2 ^ 32) :
    (∀ ts, tokenize source file = .ok ts → ∀ t ∈ ts,
      t.span.start.Within (2 ^ 32 - 1) ∧ t.span.stop.Within (2 ^ 32 - 1)) ∧
    (∀ e, analyze source file = .error e → e.position.Within (2 ^ 32 - 1)) ∧
    ∀ t, analyze source file = .ok t → t.entities.size < 2 ^ 32 ∧ ∀ simplify, ∃ w,
      (Script.stmts (t.simplifyIf simplify).statements).run (.start t.entities) = .ok ((), w) ∧
        w.count < 2 ^ 32 := by
  have hbound : source.length + 1 ≤ 2 ^ 32 - 1 := by omega
  refine ⟨?_, ?_, ?_⟩
  · intro ts hts t ht
    obtain ⟨hstart, hstop⟩ := (tokenize_isBy hts).2 t ht
    exact ⟨hstart.within.mono hbound, hstop.within.mono hbound⟩
  · intro e he
    exact (analyze_error_isBy he).within.mono hbound
  · intro t ht
    refine ⟨(size_entities_of_analyze ht).trans_lt hlength, ?_⟩
    intro simplify
    obtain ⟨w, hrun, hcount⟩ := count_of_analyze ht simplify
    exact ⟨w, hrun, hcount.trans_lt hlength⟩

end Analyzed

end Scriptor
