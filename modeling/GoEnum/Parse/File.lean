import GoEnum.Parse.Decl
import GoEnum.Token.Lexer

namespace GoEnum.Parse

open Token Syntax

structure Harvest (α : Type) where
  items : List α
  errors : List SyntaxError
  cursor : Cursor

def harvest (more : Cursor → Bool) (item : Parser α) : Nat → Cursor → Harvest α
  | 0, c => ⟨[], [], c⟩
  | n + 1, c =>
    if more c then
      match item c with
      | .ok x c =>
        let h := harvest more item n c.skipSemicolons
        { h with items := x :: h.items }
      | .error e c =>
        let h := harvest more item n c.synchronize.skipSemicolons
        { h with errors := e :: h.errors }
    else ⟨[], [], c⟩

def parse (tokens : List Token) : Except (List SyntaxError) File :=
  if tokens.isEmpty then .error [⟨.noTokens, .point 0⟩]
  else match packageClause (Cursor.start tokens).skipSemicolons with
    | .error e _ => .error [e]
    | .ok package c =>
      let n := tokens.length
      let imports := harvest (·.kind == .keyword .import) importDecl n c.skipSemicolons
      let decls := harvest (!·.atEnd) declaration n imports.cursor
      match imports.errors ++ decls.errors with
      | [] => .ok ⟨package, imports.items.flatten, decls.items⟩
      | errors => .error errors

def parseSource (source : String) : Except (List Diagnostic) File :=
  match lex source with
  | .error es => .error (es.map (·.diagnostic))
  | .ok tokens => match parse tokens with
    | .error es => .error (es.map (·.diagnostic))
    | .ok file => .ok file

end GoEnum.Parse
