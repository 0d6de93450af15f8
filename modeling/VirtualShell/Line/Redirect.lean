import VirtualShell.Line.Quote

/-!
# Redirection

The last `>` or `>>` outside of quotes binds the whole line. It is taken out together with the word
that follows; what stands behind that word stays part of the command.
-/
namespace VirtualShell.Line
set_option autoImplicit false

inductive LineFault where
  | unmatchedQuote
  | unexpectedNewline
  | unexpectedPipe
  deriving DecidableEq, Repr

def LineFault.message : LineFault → String
  | unmatchedQuote => "syntax error: unmatched quote"
  | unexpectedNewline => "syntax error near unexpected token `newline'"
  | unexpectedPipe => "syntax error near unexpected token `|'"

structure Redirect where
  append : Bool
  target : String
  deriving DecidableEq, Repr

structure OperatorSplit where
  before : List Char
  append : Bool
  after : List Char

/-- The last redirect operator. Of `>>` the second half starts no operator of its own. -/
def lastOperatorFrom (q : Quote) (before : List Char) : List Char → Option OperatorSplit
  | [] => none
  | c :: cs =>
    if q == .bare && c == '>' then
      match cs with
      | '>' :: rest =>
        (lastOperatorFrom .bare ('>' :: '>' :: before) rest).or (some ⟨before.reverse, true, rest⟩)
      | cs => (lastOperatorFrom .bare ('>' :: before) cs).or (some ⟨before.reverse, false, cs⟩)
    else lastOperatorFrom (q.step c) (c :: before) cs

def lastOperator (cs : List Char) : Option OperatorSplit := lastOperatorFrom .bare [] cs

structure Redirected where
  command : List Char
  redirect : Redirect

def extractRedirect (cs : List Char) : Except LineFault (Option Redirected) :=
  match lastOperator cs with
  | none => .ok none
  | some split =>
    match words split.after with
    | [] => .error .unexpectedNewline
    | target :: _ =>
      let leftover := afterWord split.after
      let command := Text.trim
        (Text.trimRight split.before ++ if leftover.isEmpty then [] else ' ' :: leftover)
      .ok (some ⟨command, ⟨split.append, String.ofList target⟩⟩)

/-- Takes all redirects out of a line. Each shortens it, so `fuel` may be its length. -/
def dropRedirects : Nat → List Char → Except LineFault (List Char)
  | 0, cs => .ok cs
  | fuel + 1, cs => do
    match ← extractRedirect cs with
    | none => return cs
    | some r => dropRedirects fuel r.command

end VirtualShell.Line
