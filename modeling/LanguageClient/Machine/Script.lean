import LanguageClient.Machine.Pattern

namespace LanguageClient.Machine

mutual

/-- A piece of a word. What is quoted is neither split nor part of a pattern. -/
inductive Part where
  | text (quoted : Bool) (cs : Raw)
  | value (quoted : Bool) (name : Raw) (use : Use)
  | output (quoted : Bool) (script : Script)
  | sum (quoted : Bool) (parts : List Part)

/-- What is made of the value of a variable: the value itself, its length, the value without its
front or its end, or another text in place of one that is missing (or, if `blank`, empty). Without
the value there may also be no going on. -/
inductive Use where
  | plain
  | length
  | cutFront (longest : Bool) (pattern : List Part)
  | cutBack (longest : Bool) (pattern : List Part)
  | orElse (blank : Bool) (word : List Part)
  | orAssign (blank : Bool) (word : List Part)
  | andThen (blank : Bool) (word : List Part)
  | orFail (blank : Bool)

inductive Redirection where
  | input (file : List Part)
  | here (text : List Part)
  | output (stream : Nat) (behind : Bool) (file : List Part)
  | copy (stream : Nat) (source : List Part)

inductive Script where
  | nothing
  | simple (assignments : List (Raw × List Part)) (words : List (List Part))
      (redirections : List Redirection)
  | sequence (first second : Script)
  | beside (first second : Script)
  | both (first second : Script)
  | either (first second : Script)
  | negation (script : Script)
  | pipe (first second : Script)
  | loop (whileTrue : Bool) (condition body : Script)
  | choice (condition first second : Script)
  | cases (subject : List Part) (arms : List (List (List Part) × Script))
  | each (name : Raw) (words : Option (List (List Part))) (body : Script)
  | define (name : Raw) (body : Script)
  | inside (script : Script)
  | redirected (script : Script) (redirections : List Redirection)

end

end LanguageClient.Machine
