/-!
# Kinds of uses

A use says that some code needs a member or a type, and its kind says in which
way.  Static uses name their member, dynamic uses only a selector, and type uses
a type.
-/

namespace TreeShaking

/-- The ways in which code names a member, in their listing order. -/
inductive StaticUseKind where
  | general
  | directUse
  | staticTearOff
  | superTearOff
  | fieldGet
  | fieldSet
  | superFieldSet
  | constructorInvoke
  | constConstructorInvoke
  | redirection
  | directInvoke
  | inlining
deriving DecidableEq

namespace StaticUseKind

/-- The printed form of a kind. -/
def text : StaticUseKind → String
  | .general => "General"
  | .directUse => "DirectUse"
  | .staticTearOff => "StaticTearOff"
  | .superTearOff => "SuperTearOff"
  | .fieldGet => "FieldGet"
  | .fieldSet => "FieldSet"
  | .superFieldSet => "SuperFieldSet"
  | .constructorInvoke => "ConstructorInvoke"
  | .constConstructorInvoke => "ConstConstructorInvoke"
  | .redirection => "Redirection"
  | .directInvoke => "DirectInvoke"
  | .inlining => "Inlining"

/-- Whether the use calls a constructor, and so may create an instance. -/
def isConstructor : StaticUseKind → Bool
  | .constructorInvoke | .constConstructorInvoke | .redirection => true
  | _ => false

/-- Whether the use only arises while code is generated. -/
def isCodegenOnly : StaticUseKind → Bool
  | .directInvoke | .inlining => true
  | _ => false

/-- The place of a kind in the listing order. -/
def rank : StaticUseKind → Nat
  | .general => 0
  | .directUse => 1
  | .staticTearOff => 2
  | .superTearOff => 3
  | .fieldGet => 4
  | .fieldSet => 5
  | .superFieldSet => 6
  | .constructorInvoke => 7
  | .constConstructorInvoke => 8
  | .redirection => 9
  | .directInvoke => 10
  | .inlining => 11

end StaticUseKind

/-- The ways in which code mentions a type. -/
inductive TypeUseKind where
  | isCheck
  | asCast
  | checkedModeCheck
  | catchType
  | typeLiteral
  | instantiation
  | mirrorInstantiation
  | nativeInstantiation
deriving DecidableEq

/-- The printed form of a kind. -/
def TypeUseKind.text : TypeUseKind → String
  | .isCheck => "IsCheck"
  | .asCast => "AsCast"
  | .checkedModeCheck => "CheckedModeCheck"
  | .catchType => "CatchType"
  | .typeLiteral => "TypeLiteral"
  | .instantiation => "Instantiation"
  | .mirrorInstantiation => "MirrorInstantiation"
  | .nativeInstantiation => "NativeInstantiation"

end TreeShaking
