/-!
# Node kinds

The kinds of node that a parser can report, in the order of their ordinals. Parsers hand out plain
integer tags; a tag is a kind exactly when it is below the number of kinds, and any other tag still
has a printable name.
-/

namespace Synopsis

/-- A kind of syntax node. The order of the constructors is the order of the ordinals. -/
inductive Kind where
  | singleLineCommentTrivia | multiLineCommentTrivia | openBraceToken | closeBraceToken
  | openParenToken | closeParenToken | openBracketToken | closeBracketToken | lessThanToken
  | greaterThanToken | commaToken | colonToken | semicolonToken | dotToken | questionToken
  | equalsToken | equalsGreaterThanToken | barToken | ampersandToken | endOfFileToken
  | identifier | stringLiteral | numericLiteral
  | abstractKeyword | anyKeyword | asyncKeyword | booleanKeyword | classKeyword | constKeyword
  | declareKeyword | defaultKeyword | enumKeyword | exportKeyword | extendsKeyword
  | functionKeyword | implementsKeyword | interfaceKeyword | letKeyword | namespaceKeyword
  | numberKeyword | privateKeyword | protectedKeyword | publicKeyword | readonlyKeyword
  | returnKeyword | staticKeyword | stringKeyword | typeKeyword | varKeyword | voidKeyword
  | typeParameter | typeReference | unionType | intersectionType | arrayType | typeLiteral
  | expressionWithTypeArguments | heritageClause
  | parameter | propertyDeclaration | methodDeclaration | constructor | getAccessor | setAccessor
  | propertySignature | methodSignature | indexSignature | enumMember
  | classDeclaration | interfaceDeclaration | functionDeclaration | typeAliasDeclaration
  | enumDeclaration | moduleDeclaration | moduleBlock | variableStatement
  | variableDeclarationList | variableDeclaration | block | expressionStatement | returnStatement
  | syntaxList | sourceFile | jsDocComment
deriving DecidableEq, Inhabited, Repr

namespace Kind

/-- Every kind, in ascending order of ordinals. -/
def all : List Kind := [
  .singleLineCommentTrivia, .multiLineCommentTrivia, .openBraceToken, .closeBraceToken,
  .openParenToken, .closeParenToken, .openBracketToken, .closeBracketToken, .lessThanToken,
  .greaterThanToken, .commaToken, .colonToken, .semicolonToken, .dotToken, .questionToken,
  .equalsToken, .equalsGreaterThanToken, .barToken, .ampersandToken, .endOfFileToken, .identifier,
  .stringLiteral, .numericLiteral, .abstractKeyword, .anyKeyword, .asyncKeyword, .booleanKeyword,
  .classKeyword, .constKeyword, .declareKeyword, .defaultKeyword, .enumKeyword, .exportKeyword,
  .extendsKeyword, .functionKeyword, .implementsKeyword, .interfaceKeyword, .letKeyword,
  .namespaceKeyword, .numberKeyword, .privateKeyword, .protectedKeyword, .publicKeyword,
  .readonlyKeyword, .returnKeyword, .staticKeyword, .stringKeyword, .typeKeyword, .varKeyword,
  .voidKeyword, .typeParameter, .typeReference, .unionType, .intersectionType, .arrayType,
  .typeLiteral, .expressionWithTypeArguments, .heritageClause, .parameter, .propertyDeclaration,
  .methodDeclaration, .constructor, .getAccessor, .setAccessor, .propertySignature,
  .methodSignature, .indexSignature, .enumMember, .classDeclaration, .interfaceDeclaration,
  .functionDeclaration, .typeAliasDeclaration, .enumDeclaration, .moduleDeclaration, .moduleBlock,
  .variableStatement, .variableDeclarationList, .variableDeclaration, .block,
  .expressionStatement, .returnStatement, .syntaxList, .sourceFile, .jsDocComment]

/-- The position of a kind in the list of all kinds. -/
def ordinal (kind : Kind) : Nat := kind.ctorIdx

/-- The kind with a given ordinal. -/
def ofOrdinal? (ordinal : Nat) : Option Kind := all[ordinal]?

/-- The name under which a kind is written in tree files, settings and output. -/
def name : Kind → String
  | .singleLineCommentTrivia => "SingleLineCommentTrivia"
  | .multiLineCommentTrivia => "MultiLineCommentTrivia"
  | .openBraceToken => "OpenBraceToken"
  | .closeBraceToken => "CloseBraceToken"
  | .openParenToken => "OpenParenToken"
  | .closeParenToken => "CloseParenToken"
  | .openBracketToken => "OpenBracketToken"
  | .closeBracketToken => "CloseBracketToken"
  | .lessThanToken => "LessThanToken"
  | .greaterThanToken => "GreaterThanToken"
  | .commaToken => "CommaToken"
  | .colonToken => "ColonToken"
  | .semicolonToken => "SemicolonToken"
  | .dotToken => "DotToken"
  | .questionToken => "QuestionToken"
  | .equalsToken => "EqualsToken"
  | .equalsGreaterThanToken => "EqualsGreaterThanToken"
  | .barToken => "BarToken"
  | .ampersandToken => "AmpersandToken"
  | .endOfFileToken => "EndOfFileToken"
  | .identifier => "Identifier"
  | .stringLiteral => "StringLiteral"
  | .numericLiteral => "NumericLiteral"
  | .abstractKeyword => "AbstractKeyword"
  | .anyKeyword => "AnyKeyword"
  | .asyncKeyword => "AsyncKeyword"
  | .booleanKeyword => "BooleanKeyword"
  | .classKeyword => "ClassKeyword"
  | .constKeyword => "ConstKeyword"
  | .declareKeyword => "DeclareKeyword"
  | .defaultKeyword => "DefaultKeyword"
  | .enumKeyword => "EnumKeyword"
  | .exportKeyword => "ExportKeyword"
  | .extendsKeyword => "ExtendsKeyword"
  | .functionKeyword => "FunctionKeyword"
  | .implementsKeyword => "ImplementsKeyword"
  | .interfaceKeyword => "InterfaceKeyword"
  | .letKeyword => "LetKeyword"
  | .namespaceKeyword => "NamespaceKeyword"
  | .numberKeyword => "NumberKeyword"
  | .privateKeyword => "PrivateKeyword"
  | .protectedKeyword => "ProtectedKeyword"
  | .publicKeyword => "PublicKeyword"
  | .readonlyKeyword => "ReadonlyKeyword"
  | .returnKeyword => "ReturnKeyword"
  | .staticKeyword => "StaticKeyword"
  | .stringKeyword => "StringKeyword"
  | .typeKeyword => "TypeKeyword"
  | .varKeyword => "VarKeyword"
  | .voidKeyword => "VoidKeyword"
  | .typeParameter => "TypeParameter"
  | .typeReference => "TypeReference"
  | .unionType => "UnionType"
  | .intersectionType => "IntersectionType"
  | .arrayType => "ArrayType"
  | .typeLiteral => "TypeLiteral"
  | .expressionWithTypeArguments => "ExpressionWithTypeArguments"
  | .heritageClause => "HeritageClause"
  | .parameter => "Parameter"
  | .propertyDeclaration => "PropertyDeclaration"
  | .methodDeclaration => "MethodDeclaration"
  | .constructor => "Constructor"
  | .getAccessor => "GetAccessor"
  | .setAccessor => "SetAccessor"
  | .propertySignature => "PropertySignature"
  | .methodSignature => "MethodSignature"
  | .indexSignature => "IndexSignature"
  | .enumMember => "EnumMember"
  | .classDeclaration => "ClassDeclaration"
  | .interfaceDeclaration => "InterfaceDeclaration"
  | .functionDeclaration => "FunctionDeclaration"
  | .typeAliasDeclaration => "TypeAliasDeclaration"
  | .enumDeclaration => "EnumDeclaration"
  | .moduleDeclaration => "ModuleDeclaration"
  | .moduleBlock => "ModuleBlock"
  | .variableStatement => "VariableStatement"
  | .variableDeclarationList => "VariableDeclarationList"
  | .variableDeclaration => "VariableDeclaration"
  | .block => "Block"
  | .expressionStatement => "ExpressionStatement"
  | .returnStatement => "ReturnStatement"
  | .syntaxList => "SyntaxList"
  | .sourceFile => "SourceFile"
  | .jsDocComment => "JSDocComment"

/-- The kind with a given name; names are case-sensitive. -/
def ofName? (name : String) : Option Kind := all.find? fun kind => kind.name = name

/-- The printable name of an integer tag, whether or not it is the ordinal of a kind. -/
def tagName (tag : Nat) : String :=
  match ofOrdinal? tag with
  | some kind => kind.name
  | none => s!"Unknown({tag})"

end Kind

end Synopsis
