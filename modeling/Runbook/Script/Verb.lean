import Runbook.Script.Command

namespace Runbook

inductive LoopKind
  | condition
  | counter
  | items
  | json
  | xml
  deriving DecidableEq, Repr

def LoopKind.word : LoopKind → String
  | .condition => "while"
  | .counter => "for"
  | .items => "foreach"
  | .json => "forJson"
  | .xml => "forXml"

def LoopKind.endWord : LoopKind → String
  | .condition => "endWhile"
  | .counter => "endFor"
  | .items => "endForeach"
  | .json => "endForJson"
  | .xml => "endForXml"

/-- A function may be written with either of two words; the second is out of use. -/
inductive FunctionWord
  | function
  | script
  deriving DecidableEq, Repr

def FunctionWord.word : FunctionWord → String
  | .function => "function"
  | .script => "script"

def FunctionWord.endWord : FunctionWord → String
  | .function => "endFunction"
  | .script => "endScript"

inductive LoadWord
  | json
  | xml
  | plain
  deriving DecidableEq, Repr

def LoadWord.word : LoadWord → String
  | .json => "loadJsonVars"
  | .xml => "loadXmlVars"
  | .plain => "loadVars"

inductive Verb
  | label
  | goto
  | gotoIf
  | skipNext
  | openIf
  | elseIf
  | orElse
  | endIf
  | openTry
  | openCatch
  | openFinally
  | endTry
  | openLoop (kind : LoopKind)
  | endLoop (kind : LoopKind)
  | again
  | leave
  | call
  | openFunction (word : FunctionWord)
  | giveBack
  | endFunction (word : FunctionWord)
  | exitTest
  | load (word : LoadWord)
  deriving DecidableEq, Repr

namespace Verb

def word : Verb → String
  | label => "label"
  | goto => "goto"
  | gotoIf => "gotoIf"
  | skipNext => "skipNext"
  | openIf => "if"
  | elseIf => "elseIf"
  | orElse => "else"
  | endIf => "endIf"
  | openTry => "try"
  | openCatch => "catch"
  | openFinally => "finally"
  | endTry => "endTry"
  | openLoop kind => kind.word
  | endLoop kind => kind.endWord
  | again => "continue"
  | leave => "break"
  | call => "call"
  | openFunction w => w.word
  | giveBack => "return"
  | endFunction w => w.endWord
  | exitTest => "exitTest"
  | load w => w.word

def loopKinds : List LoopKind := [.condition, .counter, .items, .json, .xml]

def functionWords : List FunctionWord := [.function, .script]

def loadWords : List LoadWord := [.json, .xml, .plain]

def all : List Verb :=
  [label, goto, gotoIf, skipNext, openIf, elseIf, orElse, endIf, openTry, openCatch,
    openFinally, endTry, again, leave, call, giveBack, exitTest] ++
  loopKinds.map openLoop ++ loopKinds.map endLoop ++ functionWords.map openFunction ++
  functionWords.map endFunction ++ loadWords.map load

def ofWord? (text : String) : Option Verb := all.find? (·.word = text)

end Verb

def Command.verb? (c : Command) : Option Verb :=
  if c.executable then Verb.ofWord? c.baseName else none

end Runbook
