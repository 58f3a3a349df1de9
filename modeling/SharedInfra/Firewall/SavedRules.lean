import SharedInfra.Firewall.ChainSummary
import SharedInfra.Sequences.FirstMatch

/-!
# Printed rules and their netfilter meaning

What `iptables -S` and `ip6tables -S` print, rule by rule: the options the
reader of the listing keeps, match modules, any other option with its arguments,
and the target (`SavedRule`).  Names, addresses and interfaces are printed as
they are; free text such as a comment is quoted (`saveString`).

`Netfilter` gives the options a meaning on packets and the targets an effect.
Nothing is assumed of an option but that an IPv4 host route means the same with
and without its `/32`.
-/

namespace SharedInfra.Firewall

open Python Sequences

/-- The options the reader keeps in a field. -/
inductive Field where
  | source
  | outInterface
  | ctstate
  | plain (field : PlainField)
deriving DecidableEq

/-- The option as the tools print it. -/
def Field.word : Field → Str
  | .source => "-s"
  | .outInterface => "-o"
  | .ctstate => "--ctstate"
  | .plain .inIface => "-i"
  | .plain .dst => "-d"
  | .plain .protocol => "-p"
  | .plain .dport => "--dport"
  | .plain .ctorigdst => "--ctorigdst"
  | .plain .ctorigdstport => "--ctorigdstport"

/-- Whether the reader keeps the option with a negation before it. -/
def Field.keepsNegation : Field → Bool
  | .source => true
  | .outInterface => true
  | _ => false

def readerWords : List Str :=
  (["!", "-m", "--match", "-s", "--source", "-o", "--out-interface", "--ctstate", "-j",
    "--jump", "-g", "--goto"] : List Str) ++ plainOptions.map Prod.fst

/-- One argument as the tools print it: as it is, or as quoted text. -/
inductive Arg where
  | raw (value : Str)
  | text (value : Str)
deriving DecidableEq

def Arg.value : Arg → Str
  | .raw value => value
  | .text value => value

/-- The characters free text is printed without quotes for. -/
def isUnquotedChar (c : Char) : Bool := c.isAlphanum || c == '_' || c == '-'

/-- A backslash before each quote and backslash. -/
def escapeText : Str → Str
  | [] => []
  | c :: cs => if c = '"' ∨ c = '\\' ∨ c = '\'' then '\\' :: c :: escapeText cs else c :: escapeText cs

/-- `xtables_save_string`: free text, in double quotes unless it is one safe word. -/
def saveString (value : Str) : Str :=
  if !value.isEmpty && value.all isUnquotedChar then value
  else '"' :: (escapeText value ++ ['"'])

def Arg.printed : Arg → Str
  | .raw value => value
  | .text value => saveString value

/-- An option the reader has no branch for.  After the first argument the tools print
keywords and numbers, never the name of a dropping target. -/
structure OtherOption where
  negated : Bool
  name : Str
  args : List Arg
  isOption : name.head? = some '-'
  isOther : name ∉ readerWords
  keywords : ∀ arg ∈ args.tail, arg.value ∉ droppingTargets
deriving DecidableEq

/-- The value of a kept option; an address is more than its prefix length. -/
def OptionValue : Type := { value : Str // normaliseAddress value ≠ [] }
deriving DecidableEq

/-- One item of a rule's match part. -/
inductive Item where
  | option (field : Field) (negated : Bool) (value : OptionValue)
  | module (name : Str)
  | other (o : OtherOption)
deriving DecidableEq

/-- The target part of a rule. -/
structure Target where
  goto : Bool
  name : Str
  options : List OtherOption
deriving DecidableEq

/-- One rule of a filter table. -/
structure SavedRule where
  chain : Str
  items : List Item
  target : Option Target
deriving DecidableEq

/-- The words of an option, with its arguments shown by `show`. -/
def OtherOption.wordsBy (view : Arg → Str) (o : OtherOption) : List Str :=
  bang o.negated ++ o.name :: o.args.map view

def Item.wordsBy (view : Arg → Str) : Item → List Str
  | .option field negated value => bang negated ++ [field.word, value.1]
  | .module name => ["-m", name]
  | .other o => o.wordsBy view

def Target.wordsBy (view : Arg → Str) (t : Target) : List Str :=
  (if t.goto then "-g" else "-j") :: t.name :: t.options.flatMap (OtherOption.wordsBy view)

def SavedRule.optionWordsBy (view : Arg → Str) (r : SavedRule) : List Str :=
  r.items.flatMap (Item.wordsBy view) ++ (r.target.map (Target.wordsBy view)).getD []

def SavedRule.wordsBy (view : Arg → Str) (r : SavedRule) : List Str :=
  "-A" :: r.chain :: r.optionWordsBy view

def SavedRule.words (r : SavedRule) : List Str := r.wordsBy Arg.value

def SavedRule.text (r : SavedRule) : Str := joinWith " " (r.wordsBy Arg.printed)

/-- One line of a listing. -/
inductive SavedLine where
  | policy (chain verdict : Str)
  | newChain (chain : Str)
  | append (rule : SavedRule)
deriving DecidableEq

def SavedLine.text : SavedLine → Str
  | .policy chain verdict => joinWith " " ["-P", chain, verdict]
  | .newChain chain => joinWith " " ["-N", chain]
  | .append rule => rule.text

/-- What the tool prints for a table. -/
def listingText (lines : List SavedLine) : Str := unlines (lines.map SavedLine.text)

def savedRules (lines : List SavedLine) : List SavedRule :=
  lines.filterMap fun
    | .append rule => some rule
    | _ => none

def chainRules (lines : List SavedLine) (chain : Str) : List SavedRule :=
  (savedRules lines).filter fun rule => rule.chain = chain

section Meaning

variable {P : Type}

/-- What the options and the targets of one family mean on packets of type `P`. -/
structure Netfilter (P : Type) where
  source : Str → P → Bool
  outInterface : Str → P → Bool
  ctstate : Finset Str → P → Bool
  plain : PlainField → Str → P → Bool
  other : OtherOption → P → Bool
  call : Target → P → Effect

/-- A condition, negated or not. -/
def negateIf (negated : Bool) (holds : Bool) : Bool := negated != holds

/-- Whether the packet satisfies one item. -/
def Netfilter.item (m : Netfilter P) (packet : P) : Item → Bool
  | .option .source negated value => negateIf negated (m.source value.1 packet)
  | .option .outInterface negated value => negateIf negated (m.outInterface value.1 packet)
  | .option .ctstate negated value => negateIf negated (m.ctstate (stateSet value.1) packet)
  | .option (.plain field) negated value => negateIf negated (m.plain field value.1 packet)
  | .module _ => true
  | .other o => m.other o packet

def returnTarget : Str := "RETURN"

/-- The targets that are no chain. -/
def builtinTargets : List Str := [acceptTarget, dropTarget, rejectTarget, returnTarget]

def Netfilter.target (m : Netfilter P) (packet : P) (t : Target) : Effect :=
  if t.name = acceptTarget then .accept
  else if t.name ∈ droppingTargets then .drop
  else if t.name = returnTarget then .ret
  else m.call t packet

def Netfilter.savedRule (m : Netfilter P) (packet : P) (r : SavedRule) : Effect :=
  if r.items.all (m.item packet) then (r.target.map (m.target packet)).getD .pass else .pass

/-- A rule without connection states asks nothing of them. -/
def anyState (states : Finset Str) : Bool := decide (states = ∅)

/-- Whether the packet satisfies a rule of the policy; an empty field asks nothing. -/
def Netfilter.satisfies (m : Netfilter P) (packet : P) (r : Rule) : Bool :=
  (r.inIface.isEmpty || m.plain .inIface r.inIface packet) &&
  (r.outIface.isEmpty || negateIf r.outNegated (m.outInterface r.outIface packet)) &&
  (r.src.isEmpty || negateIf r.srcNegated (m.source r.src packet)) &&
  (r.dst.isEmpty || m.plain .dst r.dst packet) &&
  (r.protocol.isEmpty || m.plain .protocol r.protocol packet) &&
  (r.dport.isEmpty || m.plain .dport r.dport packet) &&
  (anyState r.ctstate || m.ctstate r.ctstate packet) &&
  (r.ctorigdst.isEmpty || m.plain .ctorigdst r.ctorigdst packet) &&
  (r.ctorigdstport.isEmpty || m.plain .ctorigdstport r.ctorigdstport packet)

def Netfilter.policyRule (m : Netfilter P) (packet : P) (r : Rule) : Effect :=
  if m.satisfies packet r then m.target packet ⟨r.goto, r.target, []⟩ else .pass

/-- What is relied on of the tools: an IPv4 host route means the same without its `/32`,
and a jump to a chain of the allow-list drops the packet or returns. -/
structure Netfilter.Lawful (m : Netfilter P) (family : Family) (allowed : List Str) : Prop where
  sourceHost : family = .iptables → ∀ value packet,
    m.source (normaliseAddress value) packet = m.source value packet
  plainHost : family = .iptables → ∀ field value packet, field = .dst ∨ field = .ctorigdst →
    m.plain field (normaliseAddress value) packet = m.plain field value packet
  allowedCall : ∀ t packet, t.name ∈ allowed → t.goto = false →
    m.call t packet = .drop ∨ m.call t packet = .pass

end Meaning

end SharedInfra.Firewall
