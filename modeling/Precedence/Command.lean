import Precedence.Session.Program

/-!
# The command

What the command answers: to a file named on its command line, or, without one, to each line of its
input in turn.  Answers are values here; reading and printing are left to the caller.
-/

namespace Precedence

/-! ## What stands in the way of reading a file -/

inductive FileError where
  | system (number : Nat) (reason : String)
  | notText
  deriving DecidableEq, Repr

namespace FileError

def missing : FileError := .system 2 "No such file or directory"

def notDirectory : FileError := .system 20 "Not a directory"

def isDirectory : FileError := .system 21 "Is a directory"

def nameTooLong : FileError := .system 36 "File name too long"

def denied : FileError := .system 13 "Permission denied"

/-- The wording of the common errors is fixed; any other error brings its own. -/
def ofNumber (number : Nat) (reason : String) : FileError :=
  ([(2, missing), (13, denied), (20, notDirectory), (21, isDirectory), (36, nameTooLong)].lookup
    number).getD (.system number reason)

def message : FileError → String
  | .system number reason => reason ++ " (os error " ++ toString number ++ ")"
  | .notText => "stream did not contain valid UTF-8"

end FileError

namespace Command

/-- Text is UTF-8 or nothing. -/
def decode? (bytes : List UInt8) : Option String := String.fromUTF8? ⟨bytes.toArray⟩

/-! ## The answer to a text -/

def reportTip : Option String → String
  | none => ""
  | some tip => "   | " ++ tip ++ "\n"

def report (d : Diagnostic) : String :=
  "Error: " ++ d.name ++ ": " ++ d.message ++ "\n" ++ reportTip d.tip?

/-- A text without fault is answered by its rendering, any other by what is wrong with it. -/
def answer (text : String) : Except String String :=
  let r := parseText text
  if r.2 = [] then .ok (r.1.render ++ "\n") else .error (String.join (r.2.map report))

/-! ## Outcomes -/

structure Outcome where
  code : Nat
  stdout : String
  stderr : String
  deriving DecidableEq, Repr

/-- The outcome with something printed before it. -/
def Outcome.behind (out : String) (o : Outcome) : Outcome := { o with stdout := out ++ o.stdout }

def usage (command : String) : Outcome := ⟨1, "", "Usage: " ++ command ++ " [FILE]\n"⟩

def ofFile (path : String) (content : Except FileError (List UInt8)) : Outcome :=
  match content.bind fun bytes => (decode? bytes).elim (.error .notText) .ok with
  | .error e => ⟨1, "", "Failed to read " ++ path ++ ": " ++ e.message ++ "\n"⟩
  | .ok text =>
    match answer text with
    | .ok out => ⟨0, out, ""⟩
    | .error out => ⟨1, "-> " ++ path ++ "\n" ++ out, ""⟩

/-! ## Line by line -/

def prompt : String := ">> "

/-- What is printed for a line, or `none` where it is no text and ends the conversation. -/
def reply? (line : List UInt8) : Option String :=
  (decode? line).map fun text =>
    match answer text with
    | .ok out => out
    | .error out => out

def unreadable : String := "Failed to read input: " ++ FileError.notText.message ++ "\n"

def newline : UInt8 := 10

/-- How a conversation stands: in a line, of which some is known already, backwards; behind a line,
with what is printed then; or over. -/
inductive Stage where
  | inLine (begun : List UInt8)
  | behindLine (out : String)
  | over (code : Nat) (stderr : String)
  deriving DecidableEq, Repr

def endLine (line : List UInt8) : Stage :=
  match reply? line with
  | none => .over 1 unreadable
  | some out => .behindLine (out ++ prompt)

/-- What the next byte, or the end of the input, brings.  A line ends with its newline; the last one
may lack it. -/
def hear (begun : List UInt8) : Option UInt8 → Stage
  | some b => if b = newline then endLine (b :: begun).reverse else .inLine (b :: begun)
  | none => if begun = [] then .over 0 "" else endLine begun.reverse

theorem endLine_ne_inLine (line more : List UInt8) : endLine line ≠ .inLine more := by
  unfold endLine
  split <;> nofun

theorem exists_of_hear_inLine {begun more : List UInt8} {next : Option UInt8}
    (h : hear begun next = .inLine more) : ∃ b, next = some b := by
  cases next with
  | some b => exact ⟨b, rfl⟩
  | none =>
    rw [hear] at h
    split at h
    · cases h
    · exact absurd h (endLine_ne_inLine _ _)

theorem not_hear_behindLine (out : String) : hear [] none ≠ .behindLine out := nofun

/-- What is left of a conversation, in a line or in front of one. -/
def listen (begun input : List UInt8) : Outcome :=
  match _h : hear begun input.head? with
  | .inLine more => listen more input.tail
  | .behindLine out => (listen [] input.tail).behind out
  | .over code stderr => ⟨code, "", stderr⟩
termination_by 2 * input.length + min 1 begun.length
decreasing_by
  -- A line goes on with a byte; at the end of the input, the line that had begun is used up.
  · obtain ⟨b, hb⟩ := exists_of_hear_inLine _h
    obtain ⟨bs, rfl⟩ := List.head?_eq_some_iff.1 hb
    simp only [List.tail_cons, List.length_cons]
    omega
  · cases input with
    | nil =>
      cases begun with
      | nil => exact absurd _h (not_hear_behindLine out)
      | cons b bs => simp
    | cons b bs =>
      simp only [List.tail_cons, List.length_cons, List.length_nil]
      omega

/-! ## The command line -/

def run (command : String) (args : List String) (input : List UInt8)
    (read : String → Except FileError (List UInt8)) : Outcome :=
  match args with
  | [] => (listen [] input).behind prompt
  | [path] => ofFile path (read path)
  | _ => usage command

end Command

end Precedence
