import Mathlib.Data.List.Forall2
import Precedence.Command

/-!
# Conversations

Without a file the command reads its input line by line.  Each line is answered as a file is that
holds just that line, and nothing of a line is left over for the next.
-/

namespace Precedence.Command

/-! ## Cutting after newlines -/

/-- `start` is what is already known of the first line, backwards. -/
def linesFrom (start : List UInt8) : List UInt8 → List (List UInt8)
  | [] => if start = [] then [] else [start.reverse]
  | b :: bs =>
    if b = newline then (b :: start).reverse :: linesFrom [] bs else linesFrom (b :: start) bs

def lines (input : List UInt8) : List (List UInt8) := linesFrom [] input

/-- The lines of an input: every newline ends one, and the last one may lack it. -/
inductive CutIntoLines : List UInt8 → List (List UInt8) → Prop
  | done : CutIntoLines [] []
  | last {front} (hne : front ≠ []) (h : newline ∉ front) : CutIntoLines front [front]
  | line {front input ls} (h : newline ∉ front) (hrest : CutIntoLines input ls) :
      CutIntoLines (front ++ newline :: input) ((front ++ [newline]) :: ls)

theorem linesFrom_of_not_mem {front : List UInt8} (h : newline ∉ front) (start : List UInt8)
    (input : List UInt8) :
    linesFrom start (front ++ input) = linesFrom (front.reverse ++ start) input := by
  induction front generalizing start with
  | nil => rfl
  | cons b bs ih =>
    obtain ⟨hb, hbs⟩ := not_or.1 (mt List.mem_cons.2 h)
    rw [List.cons_append, linesFrom, if_neg (Ne.symm hb), ih hbs, List.reverse_cons,
      List.append_assoc]
    rfl

theorem CutIntoLines.eq_lines {input : List UInt8} {ls : List (List UInt8)}
    (h : CutIntoLines input ls) : ls = lines input := by
  induction h with
  | done => rfl
  | @last front hne h =>
    have hlines := linesFrom_of_not_mem h [] []
    rw [List.append_nil, List.append_nil, linesFrom, if_neg (List.reverse_ne_nil_iff.2 hne),
      List.reverse_reverse] at hlines
    exact hlines.symm
  | @line front input ls h _ ih =>
    rw [lines, linesFrom_of_not_mem h, linesFrom, if_pos rfl, List.append_nil, List.reverse_cons,
      List.reverse_reverse, ih]
    rfl

-- By induction on the input; `start` is the line that has begun, so it is free of newlines.
theorem cutIntoLines_linesFrom {start : List UInt8} (h : newline ∉ start) (input : List UInt8) :
    CutIntoLines (start.reverse ++ input) (linesFrom start input) := by
  have hfront : newline ∉ start.reverse := mt List.mem_reverse.1 h
  induction input generalizing start with
  | nil =>
    rw [linesFrom, List.append_nil]
    split
    next hnil => subst hnil; exact .done
    next hne => exact .last (List.reverse_ne_nil_iff.2 hne) hfront
  | cons b bs ih =>
    rw [linesFrom]
    split
    next hb =>
      subst hb
      rw [List.reverse_cons]
      exact .line hfront (ih List.not_mem_nil List.not_mem_nil)
    next hb =>
      have hmore : newline ∉ b :: start := fun hmem =>
        (List.mem_cons.1 hmem).elim (fun heq => hb heq.symm) h
      have hcut := ih hmore (mt List.mem_reverse.1 hmore)
      rwa [List.reverse_cons, List.append_assoc] at hcut

theorem cutIntoLines_iff {input : List UInt8} {ls : List (List UInt8)} :
    CutIntoLines input ls ↔ ls = lines input := by
  refine ⟨CutIntoLines.eq_lines, ?_⟩
  rintro rfl
  exact cutIntoLines_linesFrom List.not_mem_nil input

/-! ## One line -/

def IsText (line : List UInt8) : Prop := (ByteArray.mk line.toArray).IsValidUTF8

/-- The command prints `body` for a file that holds just `line`, behind a line with the path if
there is something wrong with it. -/
def PrintsFile (line : List UInt8) (body : String) : Prop :=
  ∀ command path input read, read path = .ok line →
    run command [path] input read = ⟨0, body, ""⟩ ∨
      run command [path] input read = ⟨1, "-> " ++ path ++ "\n" ++ body, ""⟩

theorem exists_reply?_iff {line : List UInt8} :
    (∃ body, reply? line = some body) ↔ IsText line := by
  rw [← Option.isSome_iff_exists, reply?, Option.isSome_map, decode?, String.fromUTF8?, IsText]
  split
  next h => exact ⟨fun _ => h, fun _ => rfl⟩
  next h => exact ⟨nofun, fun htext => absurd htext h⟩

theorem printsFile_of_reply? {line : List UInt8} {body : String} (h : reply? line = some body) :
    PrintsFile line body := by
  intro command path input read hread
  obtain ⟨text, htext, hbody⟩ := Option.map_eq_some_iff.1 h
  show ofFile path (read path) = _ ∨ ofFile path (read path) = _
  rw [hread, ofFile]
  dsimp only [Except.bind]
  rw [htext]
  dsimp only [Option.elim]
  cases hanswer : answer text with
  | ok out =>
    rw [hanswer] at hbody
    exact .inl (hbody ▸ rfl)
  | error out =>
    rw [hanswer] at hbody
    exact .inr (hbody ▸ rfl)

/-! ## Line after line -/

/-- A prompt before every line, and one before the end. -/
def converse : List (List UInt8) → Outcome
  | [] => ⟨0, prompt, ""⟩
  | line :: rest =>
    match reply? line with
    | none => ⟨1, prompt, unreadable⟩
    | some out => (converse rest).behind (prompt ++ out)

theorem behind_behind (front back : String) (o : Outcome) :
    (o.behind back).behind front = o.behind (front ++ back) := by
  unfold Outcome.behind
  rw [String.append_assoc]

theorem listen_eq (begun input : List UInt8) :
    listen begun input = match hear begun input.head? with
      | .inLine more => listen more input.tail
      | .behindLine out => (listen [] input.tail).behind out
      | .over code stderr => ⟨code, "", stderr⟩ := by
  rw [listen]
  split
  next hnext => rw [hnext]
  next hnext => rw [hnext]
  next hnext => rw [hnext]

/-- A line that has come to its end is answered, and the rest is heard from its start. -/
theorem listen_of_endLine {begun input line : List UInt8} {rest : List (List UInt8)}
    (h : hear begun input.head? = endLine line)
    (hrest : (listen [] input.tail).behind prompt = converse rest) :
    (listen begun input).behind prompt = converse (line :: rest) := by
  rw [listen_eq, h, endLine, converse]
  cases reply? line with
  | none =>
    show Outcome.mk 1 (prompt ++ "") unreadable = _
    rw [String.append_empty]
  | some out =>
    show ((listen [] input.tail).behind (out ++ prompt)).behind prompt =
      (converse rest).behind (prompt ++ out)
    rw [← hrest, behind_behind, behind_behind, String.append_assoc]

-- By induction on the input; `begun` is the line that has begun.
theorem listen_eq_converse (begun input : List UInt8) :
    (listen begun input).behind prompt = converse (linesFrom begun input) := by
  induction input generalizing begun with
  | nil =>
    have hend : (listen [] []).behind prompt = converse [] := by
      rw [listen_eq]
      show Outcome.mk 0 (prompt ++ "") "" = _
      rw [String.append_empty]
      rfl
    rw [linesFrom]
    split
    next hnil =>
      rw [hnil]
      exact hend
    next hne => exact listen_of_endLine (if_neg hne) hend
  | cons b bs ih =>
    rw [linesFrom]
    split
    next hb => exact listen_of_endLine (if_pos hb) (ih [])
    next hb =>
      have hmore : hear begun (some b) = .inLine (b :: begun) := if_neg hb
      rw [listen_eq, List.head?_cons, hmore]
      exact ih (b :: begun)

/-- A line that is text is answered behind a prompt, and the next one is read as if it were the
first. -/
theorem converse_cons {line : List UInt8} {body : String} (h : reply? line = some body)
    (rest : List (List UInt8)) :
    converse (line :: rest) = (converse rest).behind (prompt ++ body) := by
  rw [converse, h]

/-- What the lines of `bodies` are answered, one prompt before each. -/
def conversation (bodies : List String) : String := String.join (bodies.map (prompt ++ ·))

theorem converse_append {ls : List (List UInt8)} {bodies : List String}
    (h : List.Forall₂ (fun line body => reply? line = some body) ls bodies)
    (rest : List (List UInt8)) :
    converse (ls ++ rest) = (converse rest).behind (conversation bodies) := by
  induction h with
  | nil =>
    have hnone : conversation [] = "" := String.join_nil
    rw [hnone, Outcome.behind, String.empty_append]
    rfl
  | @cons line body ls bodies hreply _ ih =>
    have hmore : conversation (body :: bodies) = prompt ++ body ++ conversation bodies :=
      String.join_cons
    rw [List.cons_append, converse_cons hreply, ih, hmore, behind_behind]

theorem exists_replies {ls : List (List UInt8)} (h : ∀ line ∈ ls, IsText line) :
    ∃ bodies, List.Forall₂ (fun line body => reply? line = some body) ls bodies := by
  induction ls with
  | nil => exact ⟨[], .nil⟩
  | cons line ls ih =>
    obtain ⟨body, hbody⟩ := exists_reply?_iff.2 (h line List.mem_cons_self)
    obtain ⟨bodies, hbodies⟩ := ih fun l hl => h l (List.mem_cons_of_mem line hl)
    exact ⟨body :: bodies, .cons hbody hbodies⟩

/-- An input falls into lines in one way.  Where all of them are text, each is answered as a file
that holds just that line; where one is not, the lines before it are, and nothing after it is
read. -/
theorem run_line_by_line (command : String) (input : List UInt8)
    (read : String → Except FileError (List UInt8)) :
    (∃! ls, CutIntoLines input ls) ∧
    (∀ ls, CutIntoLines input ls → (∀ line ∈ ls, IsText line) →
      ∃ bodies, List.Forall₂ PrintsFile ls bodies ∧
        run command [] input read =
          ⟨0, String.join (bodies.map fun body => ">> " ++ body) ++ ">> ", ""⟩) ∧
    ∀ before bad after, CutIntoLines input (before ++ bad :: after) →
      (∀ line ∈ before, IsText line) → ¬ IsText bad →
      ∃ bodies, List.Forall₂ PrintsFile before bodies ∧
        run command [] input read =
          ⟨1, String.join (bodies.map fun body => ">> " ++ body) ++ ">> ",
            "Failed to read input: stream did not contain valid UTF-8\n"⟩ := by
  have hrun {ls : List (List UInt8)} (hcut : CutIntoLines input ls) :
      run command [] input read = converse ls := by
    rw [hcut.eq_lines]
    exact listen_eq_converse [] input
  refine ⟨⟨lines input, cutIntoLines_iff.2 rfl, fun ls => CutIntoLines.eq_lines⟩,
    fun ls hcut htext => ?_, fun before bad after hcut htext hbad => ?_⟩
  · obtain ⟨bodies, hreplies⟩ := exists_replies htext
    refine ⟨bodies, hreplies.imp fun _ _ => printsFile_of_reply?, ?_⟩
    rw [hrun hcut, ← List.append_nil ls, converse_append hreplies]
    rfl
  · obtain ⟨bodies, hreplies⟩ := exists_replies htext
    refine ⟨bodies, hreplies.imp fun _ _ => printsFile_of_reply?, ?_⟩
    have hend : converse (bad :: after) = ⟨1, prompt, unreadable⟩ := by
      rw [converse, Option.eq_none_iff_forall_ne_some.2 fun body hbody =>
        hbad (exists_reply?_iff.1 ⟨body, hbody⟩)]
    rw [hrun hcut, converse_append hreplies, hend]
    rfl

/-- The line `1 + 2` is answered, the next is no text, and the third is not read. -/
theorem run_line_by_line_cut_off :
    let first : List UInt8 := [49, 32, 43, 32, 50, 10]
    PrintsFile first "(1 + 2)\n" ∧
      run "precedence" [] (first ++ [255, 10, 51]) (fun _ => .error .missing) =
        ⟨1, ">> (1 + 2)\n>> ", "Failed to read input: stream did not contain valid UTF-8\n"⟩ := by
  intro first
  have hcut : CutIntoLines (first ++ [255, 10, 51]) ([first] ++ [255, 10] :: [[51]]) :=
    cutIntoLines_iff.2 (by decide)
  have htext : IsText first := ByteArray.validateUTF8_eq_true_iff.1 (by decide +kernel)
  have hbad : ¬ IsText [255, 10] := mt ByteArray.validateUTF8_eq_true_iff.2 (by decide +kernel)
  obtain ⟨-, -, hcutoff⟩ :=
    run_line_by_line "precedence" (first ++ [255, 10, 51]) fun _ => .error .missing
  obtain ⟨bodies, hprints, hrun⟩ :=
    hcutoff [first] [255, 10] [[51]] hcut (by simpa using htext) hbad
  obtain ⟨body, hfirst, rfl⟩ : ∃ body, PrintsFile first body ∧ bodies = [body] := by
    cases hprints with
    | cons hfirst hnone =>
      cases hnone
      exact ⟨_, hfirst, rfl⟩
  have hfile : run "precedence" ["sum"] [] (fun _ => .ok first) = ⟨0, "(1 + 2)\n", ""⟩ := by
    decide +kernel
  have hbody := hfirst "precedence" "sum" [] (fun _ => .ok first) rfl
  rw [hfile] at hbody
  obtain rfl : "(1 + 2)\n" = body := by simpa using hbody
  exact ⟨hfirst, hrun⟩

end Precedence.Command
