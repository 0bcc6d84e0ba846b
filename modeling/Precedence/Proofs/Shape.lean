import Precedence.Proofs.Abreast
import Precedence.Proofs.Numeral

/-!
# Shapes

A shape is a program with places in the row of tokens where a program has the tokens themselves.
Main result: the kinds of the tokens, and which of the numbers are numerals of 64 bits, settle one
shape, and what is read is that shape with the tokens put into their places.
-/

namespace Precedence

/-- Tokens of one kind; if they are numbers, numerals of 64 bits both or neither. -/
def Token.Alike (a b : Token) : Prop :=
  a.kind = b.kind ∧
    (a.kind = .int → (Text.integer64? a.text).isSome = (Text.integer64? b.text).isSome)

instance (a b : Token) : Decidable (a.Alike b) := inferInstanceAs (Decidable (_ ∧ _))

/-! ## Shapes and what fills them -/

inductive Expr.Shape where
  | identifier (place : Nat)
  | integer (place : Nat)
  | unary (place : Nat) (operand : Shape)
  | binary (place : Nat) (left right : Shape)

inductive Stmt.Shape where
  | letBinding (place name : Nat) (value : Option Expr.Shape)
  | returnValue (place : Nat) (value : Option Expr.Shape)
  | expression (place : Nat) (value : Option Expr.Shape)

inductive Diagnostic.Shape where
  | unrecognised (place : Nat)
  | unexpected (expected found : Kind)
  | noOperand (kind : Kind)
  | badInteger (place : Nat)
  | tooDeep (limit : Nat)

/-- Names, operators and values are those that the tokens give. -/
def Expr.Shape.fill? (ts : List Token) : Expr.Shape → Option Expr
  | .identifier i => do
    let t ← ts[i]?
    return .identifier (.ofToken t)
  | .integer i => do
    let t ← ts[i]?
    let value ← Text.integer64? t.text
    return .integer t value
  | .unary i operand => do
    let t ← ts[i]?
    let e ← operand.fill? ts
    return .unary t t.text e
  | .binary i left right => do
    let t ← ts[i]?
    let l ← left.fill? ts
    let r ← right.fill? ts
    return .binary t t.text l r

def Stmt.Shape.fill? (ts : List Token) : Stmt.Shape → Option Stmt
  | .letBinding i j value => do
    let t ← ts[i]?
    let name ← ts[j]?
    let v ← value.mapM (Expr.Shape.fill? ts)
    return .letBinding t (.ofToken name) v
  | .returnValue i value => do
    let t ← ts[i]?
    let v ← value.mapM (Expr.Shape.fill? ts)
    return .returnValue t v
  | .expression i value => do
    let t ← ts[i]?
    let v ← value.mapM (Expr.Shape.fill? ts)
    return .expression t v

def Diagnostic.Shape.fill? (ts : List Token) : Diagnostic.Shape → Option Diagnostic
  | .unrecognised i => do
    let t ← ts[i]?
    return .unrecognised t.text
  | .unexpected expected found => some (.unexpected expected found)
  | .noOperand kind => some (.noOperand kind)
  | .badInteger i => do
    let t ← ts[i]?
    return .badInteger t.text
  | .tooDeep limit => some (.tooDeep limit)

/-! ## Tokens that tell their places -/

/-- A token like `t` that tells its place by the length of its text. -/
def Token.numbered (i : Nat) (t : Token) : Token :=
  ⟨t.kind, .ofList (List.replicate (i + 1) (if (Text.integer64? t.text).isSome then '0' else '#'))⟩

def Token.place (t : Token) : Nat := t.text.length - 1

theorem Token.place_numbered (i : Nat) (t : Token) : (t.numbered i).place = i := by
  rw [place, numbered, String.length_ofList, List.length_replicate]
  rfl

namespace Text

theorem digitsValue_zeros (n : Nat) : digitsValue (List.replicate n '0') = 0 := by
  induction n with
  | zero => rfl
  | succ n ih => exact ih

theorem integer64?_zeros (n : Nat) :
    integer64? (.ofList (List.replicate (n + 1) '0')) = some 0 := by
  rw [integer64?_eq_some_iff, Numeral, String.toList_ofList]
  refine ⟨?_, by decide, by decide⟩
  have hdigits : IsDigits (List.replicate (n + 1) '0') := by
    refine ⟨List.cons_ne_nil _ _, fun c hc => ?_⟩
    rw [List.eq_of_mem_replicate hc]
    decide
  have h := SignedDigits.plain hdigits
  rwa [digitsValue_zeros] at h

theorem integer64?_hashes (n : Nat) :
    integer64? (.ofList (List.replicate (n + 1) '#')) = none := by
  refine Option.eq_none_iff_forall_ne_some.2 fun v hv => ?_
  have hdigits := (integer64?_eq_some_iff.1 hv).1
  rw [String.toList_ofList, List.replicate_succ] at hdigits
  cases hdigits with
  | plain h => exact h.head_ne (by decide : '#'.isDigit = false) rfl

end Text

theorem Token.alike_numbered (i : Nat) (t : Token) : (t.numbered i).Alike t := by
  refine ⟨rfl, fun _ => ?_⟩
  rw [numbered]
  cases (Text.integer64? t.text).isSome with
  | true => exact congrArg Option.isSome (Text.integer64?_zeros i)
  | false => exact congrArg Option.isSome (Text.integer64?_hashes i)

theorem Token.Alike.trans {a b c : Token} (h : a.Alike b) (h' : b.Alike c) : a.Alike c :=
  ⟨h.1.trans h'.1, fun hint => (h.2 hint).trans (h'.2 (h.1 ▸ hint))⟩

/-- A token that tells its place and the token in that place of `us`. -/
def Likeness.placed (us : List Token) : Likeness where
  like a b := a.Alike b ∧ (a.kind ≠ .eof → us[a.place]? = some b)
  kind_eq h := h.1.1
  numeral_eq h hint := h.1.2 hint

theorem Likeness.Solid.getElem?_place {us : List Token} {a b : Token}
    (h : (Likeness.placed us).Solid a b) : us[a.place]? = some b :=
  h.1.2 h.2

/-- Any row like `ts` is like the row of numbered tokens made from `ts`, place for place. -/
theorem forall₂_numbered {ts us : List Token} (h : List.Forall₂ Token.Alike ts us) :
    List.Forall₂ (Likeness.placed us).like (ts.mapIdx Token.numbered) us := by
  rw [List.forall₂_iff_get] at h ⊢
  obtain ⟨hlen, hget⟩ := h
  refine ⟨by rw [List.length_mapIdx, hlen], fun i hi hi' => ?_⟩
  have hts : i < ts.length := by rwa [List.length_mapIdx] at hi
  rw [List.get_eq_getElem, List.getElem_mapIdx]
  refine ⟨(Token.alike_numbered i ts[i]).trans (hget i hts hi'), fun _ => ?_⟩
  rw [Token.place_numbered]
  exact List.getElem?_eq_getElem hi'

/-! ## The shape of a program of numbered tokens -/

def Expr.shape : Expr → Expr.Shape
  | .identifier name => .identifier name.token.place
  | .integer token _ => .integer token.place
  | .unary token _ operand => .unary token.place operand.shape
  | .binary token _ left right => .binary token.place left.shape right.shape

def Stmt.shape : Stmt → Stmt.Shape
  | .letBinding token name value =>
    .letBinding token.place name.token.place (value.map Expr.shape)
  | .returnValue token value => .returnValue token.place (value.map Expr.shape)
  | .expression token value => .expression token.place (value.map Expr.shape)

def Diagnostic.shape : Diagnostic → Diagnostic.Shape
  | .unrecognised text => .unrecognised (text.length - 1)
  | .unexpected expected found => .unexpected expected found
  | .noOperand kind => .noOperand kind
  | .badInteger text => .badInteger (text.length - 1)
  | .tooDeep limit => .tooDeep limit

section Fill

variable {us : List Token}

theorem Expr.Like.fill?_shape {d e : Expr} (h : Expr.Like (.placed us) d e) :
    d.shape.fill? us = some e := by
  induction h with
  | identifier h =>
    rw [shape, Shape.fill?, Identifier.ofToken, h.getElem?_place]
    rfl
  | integer h _ hw =>
    rw [shape, Shape.fill?, h.getElem?_place, Option.bind_eq_bind, Option.bind_some, hw]
    rfl
  | unary h _ ih =>
    rw [shape, Shape.fill?, h.getElem?_place, ih]
    rfl
  | binary h _ _ ihl ihr =>
    rw [shape, Shape.fill?, h.getElem?_place, ihl, ihr]
    rfl

theorem mapM_fill?_shape {v w : Option Expr} (h : Option.Rel (Expr.Like (.placed us)) v w) :
    (v.map Expr.shape).mapM (Expr.Shape.fill? us) = some w := by
  cases h with
  | none => rfl
  | some h =>
    rw [Option.map_some, Option.mapM_some, h.fill?_shape]
    rfl

theorem Stmt.Like.fill?_shape {st st' : Stmt} (h : Stmt.Like (.placed us) st st') :
    st.shape.fill? us = some st' := by
  cases h with
  | letBinding h hname hvalue =>
    rw [shape, Shape.fill?, Identifier.ofToken, h.getElem?_place, hname.getElem?_place,
      mapM_fill?_shape hvalue]
    rfl
  | returnValue h hvalue =>
    rw [shape, Shape.fill?, h.getElem?_place, mapM_fill?_shape hvalue]
    rfl
  | expression h hvalue =>
    rw [shape, Shape.fill?, h.getElem?_place, mapM_fill?_shape hvalue]
    rfl

theorem Diagnostic.Like.fill?_shape {d e : Diagnostic} (h : Diagnostic.Like (.placed us) d e) :
    d.shape.fill? us = some e := by
  cases h with
  | badInteger h =>
    rw [shape, Shape.fill?, ← Token.place, h.getElem?_place]
    rfl
  | _ => rfl

end Fill

/-! ## Programs -/

open Session

theorem map_eq_map_some {α β : Type} {f : α → Option β} {as : List α} {bs : List β}
    (h : List.Forall₂ (fun a b => f a = some b) as bs) : as.map f = bs.map some := by
  rw [← List.forall₂_eq_eq_eq, List.forall₂_map_left_iff, List.forall₂_map_right_iff]
  exact h

/-- For all rows like one another there is one shape: with the tokens of a row in their places, it
is the program that the row is read as.  So it is with what is diagnosed, and every row takes the
same number of pulls. -/
theorem parse_fills_shape (limit : Nat) (ts : List Token) :
    ∃ (shapes : List Stmt.Shape) (faults : List Diagnostic.Shape) (pulls : Nat),
      ∀ us, List.Forall₂ Token.Alike ts us →
        shapes.map (Stmt.Shape.fill? us) = (parse limit us).1.statements.map some ∧
        faults.map (Diagnostic.Shape.fill? us) = (parse limit us).2.diagnostics.map some ∧
        (parse limit us).2.cursor.pulls = pulls := by
  let ns := ts.mapIdx Token.numbered
  refine ⟨(parse limit ns).1.statements.map Stmt.shape,
    (parse limit ns).2.diagnostics.map Diagnostic.shape, (parse limit ns).2.cursor.pulls,
    fun us halike => ?_⟩
  have heof : (Likeness.placed us).like .eof .eof :=
    ⟨⟨rfl, fun _ => rfl⟩, fun hne => absurd rfl hne⟩
  obtain ⟨os, ps, s, t, hend⟩ := exists_endAlike (forall₂_numbered halike) heof
    (shows_start_listed limit ns) (shows_start_listed limit us) rfl rfl
  obtain ⟨hprogram, hdiagnostics, hcursor⟩ := parse_of_runs hend.left hend.left_eof
  obtain ⟨hprogram', hdiagnostics', hcursor'⟩ := parse_of_runs hend.right hend.right_eof
  rw [hprogram, hprogram', hdiagnostics, hdiagnostics', hcursor, hcursor', List.map_map,
    List.map_map]
  refine ⟨map_eq_map_some ?_, map_eq_map_some ?_, ?_⟩
  · have hkept : List.Forall₂ (Stmt.Like (.placed us)) (os.filterMap id) (ps.filterMap id) :=
      List.rel_filterMap (fun _ _ h => h) hend.outcomes
    exact hkept.imp fun _ _ h => h.fill?_shape
  · obtain ⟨ds, es, hds, hs, ht⟩ := hend.diagnosed
    have hs' : s.diagnosed = ds := hs.trans (List.append_nil ds)
    have ht' : t.diagnosed = es := ht.trans (List.append_nil es)
    rw [diagnostics, diagnostics, hs', ht', List.forall₂_reverse_iff]
    exact hds.imp fun _ _ h => h.fill?_shape
  · obtain ⟨m, -, hm, hm'⟩ := hend.steps
    rw [hm, hm', Cursor.pulls_steps, Cursor.pulls_steps]
    rfl

/-- Texts that belong to other kinds make no difference: a binding of a negative number, and a
numeral that does not fit. -/
theorem parse_fills_shape_misspelt :
    let ts : List Token := [⟨.let, "let"⟩, ⟨.identifier, "x"⟩, ⟨.assign, "="⟩, ⟨.minus, "-"⟩,
      ⟨.int, "7"⟩, ⟨.semicolon, ";"⟩, ⟨.int, "7x"⟩]
    let us : List Token := [⟨.let, "("⟩, ⟨.identifier, "let"⟩, ⟨.assign, "x"⟩, ⟨.minus, "7"⟩,
      ⟨.int, "-08"⟩, ⟨.semicolon, ""⟩, ⟨.int, "-"⟩]
    List.Forall₂ Token.Alike ts us ∧
      ∃ (shapes : List Stmt.Shape) (faults : List Diagnostic.Shape),
        shapes.map (Stmt.Shape.fill? ts) =
          [some (.letBinding ⟨.let, "let"⟩ (.ofToken ⟨.identifier, "x"⟩)
            (some (.unary ⟨.minus, "-"⟩ "-" (.integer ⟨.int, "7"⟩ 7)))),
          some (.expression ⟨.int, "7x"⟩ none)] ∧
        shapes.map (Stmt.Shape.fill? us) =
          [some (.letBinding ⟨.let, "("⟩ (.ofToken ⟨.identifier, "let"⟩)
            (some (.unary ⟨.minus, "7"⟩ "7" (.integer ⟨.int, "-08"⟩ (-8))))),
          some (.expression ⟨.int, "-"⟩ none)] ∧
        faults.map (Diagnostic.Shape.fill? us) = [some (.badInteger "-")] ∧
        (parse 256 ts).2.cursor.pulls = (parse 256 us).2.cursor.pulls := by
  intro ts us
  have hself : List.Forall₂ Token.Alike ts ts := List.forall₂_same.2 fun _ _ => ⟨rfl, fun _ => rfl⟩
  have halike : List.Forall₂ Token.Alike ts us := by
    simp only [ts, us, List.forall₂_cons, List.Forall₂.nil, and_true]
    decide +kernel
  obtain ⟨shapes, faults, pulls, hall⟩ := parse_fills_shape 256 ts
  obtain ⟨hts, -, hpulls⟩ := hall ts hself
  obtain ⟨hus, hfaults, hpulls'⟩ := hall us halike
  refine ⟨halike, shapes, faults, hts.trans ?_, hus.trans ?_, hfaults.trans ?_,
    hpulls.trans hpulls'.symm⟩
  all_goals decide +kernel

end Precedence
