import ArithCheck.Automaton.Table
import ArithCheck.Log
import ArithCheck.Scanner
import ArithCheck.Settings

/-!
# Steps and answers of a session

A session is a sequence of steps, each of which gets an answer. Most steps are actions on streams,
automata, scanners, recognizers, iterators and settings, which are known by name. The others are
blocks of steps, which run under settings of their own.
-/

namespace ArithCheck.Session

/-- What a new scanner reads: a stream of the session, or a byte string of its own. -/
inductive Input
  | stream (name : String)
  | bytes (bytes : List UInt8)
  deriving DecidableEq, Repr

/-- What a recognizer can be asked to do. -/
inductive Call
  /-- To recognize one expression up to the end of the input. -/
  | recognize
  /-- To draw the next token. -/
  | pull
  /-- To run one rule on its own. -/
  | rule (n : Nonterminal)
  /-- To take a token of the kind with this tag. -/
  | terminal (tag : Int)
  deriving DecidableEq, Repr

inductive Action
  | stream (name : String) (bytes : List UInt8)
  | tell (stream : String)
  | seek (stream : String) (place : Int)
  | feed (stream : String) (bytes : List UInt8)
  | close (stream : String)
  | isClosed (stream : String)
  | automaton (name : String) (table : Automaton.Table)
  /-- Makes a scanner, with the arithmetic lexicon if no automaton is named. -/
  | scanner (name : String) (input : Input) (automaton : Option String) (file : Option String)
  | nextToken (scanner : String)
  | atEnd (scanner : String)
  | drain (scanner : String)
  | iterator (name : String) (scanner : String)
  | iterate (iterator : String)
  | inspect (scanner : String)
  | recognizer (name : String) (scanner : String)
  | call (recognizer : String) (call : Call)
  | settings
  | assign (config : Settings.Value)
  | reset
  /-- Examines a byte string under the current settings. -/
  | recognize (bytes : List UInt8) (file : Option String)
  /-- Lists the tokens of a byte string under the current settings. -/
  | tokens (bytes : List UInt8) (file : Option String)

inductive Step
  | act (action : Action)
  /-- Steps under given settings; an interrupted block fails after its last step. -/
  | within (config : Settings.Value) (steps : List Step) (interrupted : Bool)
  /-- Steps that start under the default settings and keep their settings to themselves. -/
  | fresh (steps : List Step)
  /-- Steps that start under the current settings and keep their settings to themselves. -/
  | copied (steps : List Step)

inductive Reply
  | done
  | place (n : Nat)
  | flag (b : Bool)
  | file (name : Option String)
  | token (t : Option Token)
  | tokens (ts : List Token)
  /-- The next token of an iterator, or nothing if it has stopped. -/
  | iterated (t : Option Token)
  /-- A scanner, and the place up to which its stream is read. -/
  | inspected (reader : Reader) (place : Nat)
  /-- The answer of a recognizer; drawing a token has none. -/
  | called (result : Option Bool)
  | settings (s : Settings)

inductive Answer
  /-- The reply or fault of an action, the token ahead of the recognizer that it was about, and
  what was logged. -/
  | act (result : Except Fault Reply) (ahead : Option (Option Token)) (log : Log)
  /-- The answers of a block, and whether it was interrupted. -/
  | block (answers : List Answer) (interrupted : Bool)

end ArithCheck.Session
