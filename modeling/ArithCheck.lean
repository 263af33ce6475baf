import ArithCheck.Path
import ArithCheck.Main
import ArithCheck.Proofs.Command.EntryPoints
import ArithCheck.Proofs.Command.Listing
import ArithCheck.Proofs.Examination.Composition
import ArithCheck.Proofs.Examination.Derivation
import ArithCheck.Proofs.Examination.Limit
import ArithCheck.Proofs.Examination.NestingCost
import ArithCheck.Proofs.Examination.OnePass
import ArithCheck.Proofs.Examination.Sentences
import ArithCheck.Proofs.Examination.Tracing
import ArithCheck.Proofs.Examination.Unread
import ArithCheck.Proofs.Examination.Uses
import ArithCheck.Proofs.Examination.ValidPrefix
import ArithCheck.Proofs.Grammar.Unambiguous
import ArithCheck.Proofs.Lexicon.Lawful
import ArithCheck.Proofs.Lexicon.Walk
import ArithCheck.Proofs.Recognition.LongestPrefix
import ArithCheck.Proofs.Recognition.OnAccount
import ArithCheck.Proofs.Scanner.Account
import ArithCheck.Proofs.Scanner.Characters
import ArithCheck.Proofs.Scanner.Concatenation
import ArithCheck.Proofs.Scanner.FaultPlace
import ArithCheck.Proofs.Scanner.Layout
import ArithCheck.Proofs.Scanner.Leftover
import ArithCheck.Proofs.Scanner.MaximalMunch
import ArithCheck.Proofs.Scanner.Suffix
import ArithCheck.Proofs.Scanner.Termination
import ArithCheck.Proofs.Scanner.Words
import ArithCheck.Proofs.Session.Handouts
import ArithCheck.Proofs.Session.Ownership
import ArithCheck.Proofs.Session.Scopes
import ArithCheck.Proofs.Session.Sharing
import ArithCheck.Session
