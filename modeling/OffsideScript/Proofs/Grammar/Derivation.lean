/-
This file states the grammar of programs as rules that relate tokens to trees.
-/

import OffsideScript.Grammar.Expression

namespace OffsideScript

/-- The operators that join two operands of a level and group to the left. -/
inductive Level.Joins : Level → Token.Kind → Joiner → Prop where
  | sequence : Joins sequence .comma (.binary .sequence)
  | or : Joins disjunction .orWord (.logical .or)
  | xor : Joins disjunction .xorWord (.logical .xor)
  | and : Joins conjunction .andWord (.logical .and)
  | equal : Joins equality .equalEqual (.binary .equal)
  | notEqual : Joins equality .bangEqual (.binary .notEqual)
  | less : Joins comparison .less (.binary .less)
  | lessEqual : Joins comparison .lessEqual (.binary .lessEqual)
  | greater : Joins comparison .greater (.binary .greater)
  | greaterEqual : Joins comparison .greaterEqual (.binary .greaterEqual)
  | add : Joins sum .plus (.binary .add)
  | subtract : Joins sum .minus (.binary .subtract)
  | concat : Joins sum .plusPlus (.binary .concat)
  | multiply : Joins product .star (.binary .multiply)
  | divide : Joins product .slash (.binary .divide)
  | remainder : Joins product .percent (.binary .remainder)

/-- An operator that the reader finds at a level belongs to that level. -/
theorem Level.joins_of_joiner? {level : Level} {kind : Token.Kind} {joiner : Joiner}
    (found : level.joiner? kind = some joiner) : level.Joins kind joiner := by
  unfold joiner? at found
  split at found <;> cases found <;> constructor

/-- Names between commas. -/
inductive Names : List Token → List Token → Prop where
  | single {name : Token} (named : name.kind = .identifier) : Names [name] [name]
  | cons {name comma : Token} {tokens names : List Token} (named : name.kind = .identifier)
      (separates : comma.kind = .comma) (rest : Names tokens names) :
      Names (name :: comma :: tokens) (name :: names)

/-- What the rules of the grammar derive. -/
inductive Phrase where
  | expression (level : Level) (tree : Expression)
  | items (trees : List Expression)
  | list (trees : List Expression)
  | pairs (trees : List (Expression × Expression))
  | entries (trees : List (Expression × Expression))
  | statement (tree : Statement)
  | block (body : List Statement)
  | branches (trees : List (Expression × List Statement))
  | statements (trees : List Statement)

/-- Tokens derive a phrase. The names in its expressions take the numbers from the first up to the last
in the order of the tokens. -/
inductive Derives : NodeId → List Token → Phrase → NodeId → Prop where
  | tighter {level : Level} {first last : NodeId} {tokens : List Token} {tree : Expression}
      (looser : level ≠ .atom)
      (inner : Derives first tokens (.expression level.tighter tree) last) :
      Derives first tokens (.expression level tree) last
  | join {level : Level} {first middle last : NodeId} {left right : List Token}
      {operator : Token} {joiner : Joiner} {leftTree rightTree : Expression}
      (joins : level.Joins operator.kind joiner)
      (before : Derives first left (.expression level leftTree) middle)
      (after : Derives middle right (.expression level.tighter rightTree) last) :
      Derives first (left ++ operator :: right)
        (.expression level (joiner.join operator leftTree rightTree)) last
  | assign {first last : NodeId} {name equals : Token} {value : List Token} {tree : Expression}
      (named : name.kind = .identifier) (assigns : equals.kind = .equal)
      (assigned : Derives (first + 1) value (.expression .assignment tree) last) :
      Derives first (name :: equals :: value)
        (.expression .assignment (.assign first name tree)) last
  | setIndex {first second third last : NodeId} {object position value : List Token}
      {opening closing equals : Token} {objectTree positionTree tree : Expression}
      (opens : opening.kind = .leftBracket) (closes : closing.kind = .rightBracket)
      (assigns : equals.kind = .equal)
      (indexed : Derives first object (.expression .application objectTree) second)
      (inside : Derives second position (.expression .sequence positionTree) third)
      (assigned : Derives third value (.expression .assignment tree) last) :
      Derives first (object ++ opening :: (position ++ closing :: equals :: value))
        (.expression .assignment (.setIndex objectTree opening positionTree tree)) last
  | conditional {first second third last : NodeId} {condition whenTrue whenFalse : List Token}
      {question colon : Token} {conditionTree trueTree falseTree : Expression}
      (asks : question.kind = .question) (separates : colon.kind = .colon)
      (decides : Derives first condition (.expression .disjunction conditionTree) second)
      (holds : Derives second whenTrue (.expression .conditional trueTree) third)
      (fails : Derives third whenFalse (.expression .conditional falseTree) last) :
      Derives first (condition ++ question :: (whenTrue ++ colon :: whenFalse))
        (.expression .conditional (.conditional conditionTree trueTree falseTree)) last
  | power {first middle last : NodeId} {base exponent : List Token} {caret : Token}
      {baseTree exponentTree : Expression} (raises : caret.kind = .caret)
      (lower : Derives first base (.expression .sign baseTree) middle)
      (upper : Derives middle exponent (.expression .power exponentTree) last) :
      Derives first (base ++ caret :: exponent)
        (.expression .power (.binary .power caret baseTree exponentTree)) last
  | negate {first last : NodeId} {operator : Token} {operand : List Token} {tree : Expression}
      (signs : operator.kind = .minus) (inner : Derives first operand (.expression .sign tree) last) :
      Derives first (operator :: operand) (.expression .sign (.unary .negate operator tree)) last
  | not {first last : NodeId} {operator : Token} {operand : List Token} {tree : Expression}
      (signs : operator.kind = .bang) (inner : Derives first operand (.expression .sign tree) last) :
      Derives first (operator :: operand) (.expression .sign (.unary .not operator tree)) last
  | call {first middle last : NodeId} {callee arguments : List Token} {opening closing : Token}
      {tree : Expression} {trees : List Expression} (opens : opening.kind = .leftParen)
      (closes : closing.kind = .rightParen)
      (called : Derives first callee (.expression .application tree) middle)
      (passed : Derives middle arguments (.list trees) last) :
      Derives first (callee ++ opening :: (arguments ++ [closing]))
        (.expression .application (.call tree closing trees)) last
  | index {first middle last : NodeId} {object position : List Token} {opening closing : Token}
      {objectTree positionTree : Expression} (opens : opening.kind = .leftBracket)
      (closes : closing.kind = .rightBracket)
      (indexed : Derives first object (.expression .application objectTree) middle)
      (inside : Derives middle position (.expression .sequence positionTree) last) :
      Derives first (object ++ opening :: (position ++ [closing]))
        (.expression .application (.index objectTree opening positionTree)) last
  | literal {first : NodeId} {token : Token} {value : Literal}
      (literal : token.kind = .number ∨ token.kind = .text)
      (carries : token.literal = some value) :
      Derives first [token] (.expression .atom (.constant (.ofLiteral value))) first
  | trueWord {first : NodeId} {token : Token} (keyword : token.kind = .trueWord) :
      Derives first [token] (.expression .atom (.constant (.boolean true))) first
  | falseWord {first : NodeId} {token : Token} (keyword : token.kind = .falseWord) :
      Derives first [token] (.expression .atom (.constant (.boolean false))) first
  | nihlWord {first : NodeId} {token : Token} (keyword : token.kind = .nihlWord) :
      Derives first [token] (.expression .atom (.constant .nihl)) first
  | name {first : NodeId} {token : Token} (named : token.kind = .identifier) :
      Derives first [token] (.expression .atom (.variable first token)) (first + 1)
  | group {first last : NodeId} {inner : List Token} {opening closing : Token} {tree : Expression}
      (opens : opening.kind = .leftParen) (closes : closing.kind = .rightParen)
      (inside : Derives first inner (.expression .sequence tree) last) :
      Derives first (opening :: (inner ++ [closing])) (.expression .atom (.group tree)) last
  | array {first last : NodeId} {elements : List Token} {opening closing : Token}
      {trees : List Expression} (opens : opening.kind = .leftBracket)
      (closes : closing.kind = .rightBracket) (inside : Derives first elements (.list trees) last) :
      Derives first (opening :: (elements ++ [closing])) (.expression .atom (.array trees)) last
  | map {first last : NodeId} {entries : List Token} {opening closing : Token}
      {trees : List (Expression × Expression)} (opens : opening.kind = .leftBrace)
      (closes : closing.kind = .rightBrace) (inside : Derives first entries (.entries trees) last) :
      Derives first (opening :: (entries ++ [closing])) (.expression .atom (.map trees)) last
  | noItems {first : NodeId} : Derives first [] (.list []) first
  | someItems {first last : NodeId} {tokens : List Token} {trees : List Expression}
      (inner : Derives first tokens (.items trees) last) :
      Derives first tokens (.list trees) last
  | lastItem {first last : NodeId} {item : List Token} {tree : Expression}
      (inner : Derives first item (.expression .assignment tree) last) :
      Derives first item (.items [tree]) last
  | nextItem {first middle last : NodeId} {item rest : List Token} {comma : Token}
      {tree : Expression} {trees : List Expression} (separates : comma.kind = .comma)
      (inner : Derives first item (.expression .assignment tree) middle)
      (others : Derives middle rest (.items trees) last) :
      Derives first (item ++ comma :: rest) (.items (tree :: trees)) last
  | noPairs {first : NodeId} : Derives first [] (.entries []) first
  | somePairs {first last : NodeId} {tokens : List Token} {trees : List (Expression × Expression)}
      (inner : Derives first tokens (.pairs trees) last) :
      Derives first tokens (.entries trees) last
  | lastPair {first middle last : NodeId} {key value : List Token} {arrow : Token}
      {keyTree valueTree : Expression} (points : arrow.kind = .fatArrow)
      (before : Derives first key (.expression .assignment keyTree) middle)
      (after : Derives middle value (.expression .assignment valueTree) last) :
      Derives first (key ++ arrow :: value) (.pairs [(keyTree, valueTree)]) last
  | nextPair {first second third last : NodeId} {key value rest : List Token}
      {arrow comma : Token} {keyTree valueTree : Expression}
      {trees : List (Expression × Expression)} (points : arrow.kind = .fatArrow)
      (separates : comma.kind = .comma)
      (before : Derives first key (.expression .assignment keyTree) second)
      (after : Derives second value (.expression .assignment valueTree) third)
      (others : Derives third rest (.pairs trees) last) :
      Derives first (key ++ arrow :: (value ++ comma :: rest))
        (.pairs ((keyTree, valueTree) :: trees)) last
  | print {first last : NodeId} {keyword newline : Token} {value : List Token} {tree : Expression}
      (starts : keyword.kind = .printWord) (ends : newline.kind = .newline)
      (inner : Derives first value (.expression .sequence tree) last) :
      Derives first (keyword :: (value ++ [newline])) (.statement (.print keyword tree)) last
  | declare {first : NodeId} {keyword name newline : Token} (starts : keyword.kind = .letWord)
      (named : name.kind = .identifier) (ends : newline.kind = .newline) :
      Derives first [keyword, name, newline] (.statement (.declare name none)) first
  | declareValue {first last : NodeId} {keyword name equals newline : Token} {value : List Token}
      {tree : Expression} (starts : keyword.kind = .letWord) (named : name.kind = .identifier)
      (assigns : equals.kind = .equal) (ends : newline.kind = .newline)
      (inner : Derives first value (.expression .sequence tree) last) :
      Derives first (keyword :: name :: equals :: (value ++ [newline]))
        (.statement (.declare name (some tree))) last
  | branch {first second third last : NodeId} {keyword : Token} {condition body rest : List Token}
      {tree : Expression} {bodyTree : List Statement} {trees : List (Expression × List Statement)}
      (starts : keyword.kind = .ifWord)
      (decides : Derives first condition (.expression .sequence tree) second)
      (inner : Derives second body (.block bodyTree) third)
      (others : Derives third rest (.branches trees) last) :
      Derives first (keyword :: (condition ++ (body ++ rest)))
        (.statement (.branch ((tree, bodyTree) :: trees))) last
  | loop {first middle last : NodeId} {keyword : Token} {condition body : List Token}
      {tree : Expression} {bodyTree : List Statement} (starts : keyword.kind = .whileWord)
      (decides : Derives first condition (.expression .sequence tree) middle)
      (inner : Derives middle body (.block bodyTree) last) :
      Derives first (keyword :: (condition ++ body)) (.statement (.loop tree bodyTree)) last
  | procedure {first last : NodeId} {keyword name opening closing : Token} {body : List Token}
      {bodyTree : List Statement} (starts : keyword.kind = .funcWord)
      (named : name.kind = .identifier) (opens : opening.kind = .leftParen)
      (closes : closing.kind = .rightParen) (inner : Derives first body (.block bodyTree) last) :
      Derives first (keyword :: name :: opening :: closing :: body)
        (.statement (.function name [] bodyTree)) last
  | function {first last : NodeId} {keyword name opening closing : Token}
      {list parameters body : List Token} {bodyTree : List Statement}
      (starts : keyword.kind = .funcWord) (named : name.kind = .identifier)
      (opens : opening.kind = .leftParen) (listed : Names list parameters)
      (closes : closing.kind = .rightParen) (inner : Derives first body (.block bodyTree) last) :
      Derives first (keyword :: name :: opening :: (list ++ closing :: body))
        (.statement (.function name parameters bodyTree)) last
  | ret {first : NodeId} {keyword newline : Token} (starts : keyword.kind = .retWord)
      (ends : newline.kind = .newline) :
      Derives first [keyword, newline] (.statement (.ret keyword none)) first
  | retValue {first last : NodeId} {keyword newline : Token} {value : List Token}
      {tree : Expression} (starts : keyword.kind = .retWord) (ends : newline.kind = .newline)
      (inner : Derives first value (.expression .sequence tree) last) :
      Derives first (keyword :: (value ++ [newline])) (.statement (.ret keyword (some tree))) last
  | breakLoop {first : NodeId} {keyword newline : Token} (starts : keyword.kind = .breakWord)
      (ends : newline.kind = .newline) :
      Derives first [keyword, newline] (.statement (.breakLoop keyword)) first
  | continueLoop {first : NodeId} {keyword newline : Token}
      (starts : keyword.kind = .continueWord) (ends : newline.kind = .newline) :
      Derives first [keyword, newline] (.statement (.continueLoop keyword)) first
  | evaluate {first last : NodeId} {newline : Token} {value : List Token} {tree : Expression}
      (ends : newline.kind = .newline)
      (inner : Derives first value (.expression .sequence tree) last) :
      Derives first (value ++ [newline]) (.statement (.evaluate tree)) last
  | block {first last : NodeId} {indent dedent : Token} {body : List Token}
      {trees : List Statement} (opens : indent.kind = .indent) (closes : dedent.kind = .dedent)
      (inner : Derives first body (.statements trees) last) :
      Derives first (indent :: (body ++ [dedent])) (.block trees) last
  | colonBlock {first last : NodeId} {colon indent dedent : Token} {body : List Token}
      {trees : List Statement} (announces : colon.kind = .colon) (opens : indent.kind = .indent)
      (closes : dedent.kind = .dedent) (inner : Derives first body (.statements trees) last) :
      Derives first (colon :: indent :: (body ++ [dedent])) (.block trees) last
  | noBranch {first : NodeId} : Derives first [] (.branches []) first
  | elif {first second third last : NodeId} {keyword : Token} {condition body rest : List Token}
      {tree : Expression} {bodyTree : List Statement} {trees : List (Expression × List Statement)}
      (starts : keyword.kind = .elifWord)
      (decides : Derives first condition (.expression .sequence tree) second)
      (inner : Derives second body (.block bodyTree) third)
      (others : Derives third rest (.branches trees) last) :
      Derives first (keyword :: (condition ++ (body ++ rest)))
        (.branches ((tree, bodyTree) :: trees)) last
  | otherwise {first last : NodeId} {keyword : Token} {body : List Token}
      {bodyTree : List Statement} (starts : keyword.kind = .elseWord)
      (inner : Derives first body (.block bodyTree) last) :
      Derives first (keyword :: body) (.branches [(.constant (.boolean true), bodyTree)]) last
  | noStatement {first : NodeId} : Derives first [] (.statements []) first
  | nextStatement {first middle last : NodeId} {tokens rest : List Token} {tree : Statement}
      {trees : List Statement} (inner : Derives first tokens (.statement tree) middle)
      (others : Derives middle rest (.statements trees) last) :
      Derives first (tokens ++ rest) (.statements (tree :: trees)) last

end OffsideScript
