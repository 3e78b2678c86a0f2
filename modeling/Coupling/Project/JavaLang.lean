import Coupling.Table

/-!
# Names known without an import

The simple names of the package `java.lang`, and the primitive types.
-/

namespace Coupling.Project

/-- The simple names of the package `java.lang`. -/
def javaLangNames : List String := [
  "AbstractMethodError", "AbstractStringBuilder", "Appendable", "ApplicationShutdownHooks",
  "ArithmeticException", "ArrayIndexOutOfBoundsException", "ArrayStoreException", "AssertionError",
  "AssertionStatusDirectives", "AutoCloseable", "BaseVirtualThread", "Boolean",
  "BootstrapMethodError", "Byte", "CharSequence", "Character", "CharacterData", "CharacterData00",
  "CharacterData01", "CharacterData02", "CharacterData03", "CharacterData0E", "CharacterDataLatin1",
  "CharacterDataPrivateUse", "CharacterDataUndefined", "CharacterName", "Class",
  "ClassCastException", "ClassCircularityError", "ClassFormatError", "ClassFrameInfo",
  "ClassLoader", "ClassNotFoundException", "ClassValue", "CloneNotSupportedException", "Cloneable",
  "Comparable", "CompoundEnumeration", "ConditionalSpecialCasing", "Deprecated", "Double", "Enum",
  "EnumConstantNotPresentException", "Error", "Exception", "ExceptionInInitializerError", "FdLibm",
  "Float", "FunctionalInterface", "IllegalAccessError", "IllegalAccessException",
  "IllegalArgumentException", "IllegalCallerException", "IllegalMonitorStateException",
  "IllegalStateException", "IllegalThreadStateException", "IncompatibleClassChangeError",
  "IndexOutOfBoundsException", "InheritableThreadLocal", "InstantiationError",
  "InstantiationException", "Integer", "InternalError", "InterruptedException", "Iterable",
  "LayerInstantiationException", "LinkageError", "LiveStackFrame", "LiveStackFrameInfo", "Long",
  "MatchException", "Math", "Module", "ModuleLayer", "NamedPackage", "NegativeArraySizeException",
  "NoClassDefFoundError", "NoSuchFieldError", "NoSuchFieldException", "NoSuchMethodError",
  "NoSuchMethodException", "NullPointerException", "Number", "NumberFormatException", "Object",
  "OutOfMemoryError", "Override", "Package", "Process", "ProcessBuilder", "ProcessEnvironment",
  "ProcessHandle", "ProcessHandleImpl", "ProcessImpl", "PublicMethods", "Readable", "Record",
  "ReflectiveOperationException", "Runnable", "Runtime", "RuntimeException", "RuntimePermission",
  "SafeVarargs", "ScopedValue", "SecurityException", "SecurityManager", "Short", "Shutdown",
  "StackFrameInfo", "StackOverflowError", "StackStreamFactory", "StackTraceElement", "StackWalker",
  "StrictMath", "String", "StringBuffer", "StringBuilder", "StringCoding", "StringConcatHelper",
  "StringIndexOutOfBoundsException", "StringLatin1", "StringUTF16", "SuppressWarnings", "System",
  "Terminator", "Thread", "ThreadBuilders", "ThreadDeath", "ThreadGroup", "ThreadLocal",
  "Throwable", "TypeNotPresentException", "UnknownError", "UnsatisfiedLinkError",
  "UnsupportedClassVersionError", "UnsupportedOperationException", "VerifyError", "VersionProps",
  "VirtualMachineError", "VirtualThread", "Void", "WeakPairMap", "WrongThreadException"]

/-- What the simple names of `java.lang` stand for. -/
def javaLang : Table String := ⟨javaLangNames.map fun n => (n, "java.lang." ++ n)⟩

def primitives : List String :=
  ["void", "int", "long", "short", "byte", "char", "float", "double", "boolean"]

/-- Whether a name is one that no project declares: a type of `java.lang` or a primitive type. -/
def isPredefined (name : String) : Bool := javaLang.values.contains name || primitives.contains name

end Coupling.Project
