import DhrWorkbench.Catalog

/-!
# The shipped catalog

The constructs of DhrLang, whose keywords are Hindi words: an entry point, a builtin, control
keywords, types and the keywords of classes.
-/

namespace DhrWorkbench

namespace Catalog

/-- A raw entry. -/
def rawEntry (label : Text) (category : Category)
    (kind description documentation template : Text) : Value := .object [
  ("label", .str label), ("category", .str category.name), ("kind", .str kind),
  ("description", .str description), ("documentation", .str documentation),
  ("template", .str template)]

/-- The constructs of the language. -/
def shippedEntries : List Value :=
  [rawEntry "मुख्य" .entryPoint ""
      "main function"
      "Main function - प्रोग्राम का मुख्य भाग\n\nExample: `मुख्य() \x7b ... \x7d`"
      "मुख्य() \x7b\n\t$\x7b1\x7d\n\x7d",
   rawEntry "प्रिंट" .builtin ""
      "print statement"
      "Print statement - आउटपुट प्रिंट करने के लिए\n\nExample: `प्रिंट(\"Hello World\");`"
      "प्रिंट(\"$\x7b1\x7d\");",
   rawEntry "अगर" .control ""
      "if condition"
      "If condition - शर्त जांचने के लिए\n\nExample: `अगर (x > 0) \x7b ... \x7d`"
      "अगर ($\x7b1\x7d) \x7b\n\t$\x7b2\x7d\n\x7d",
   rawEntry "नहीं तो" .control ""
      "else"
      "Else statement - वैकल्पिक शर्त\n\nExample: `नहीं तो \x7b ... \x7d`"
      "नहीं तो \x7b\n\t$\x7b1\x7d\n\x7d",
   rawEntry "जबकि" .control ""
      "while loop"
      "While loop - जब तक शर्त सत्य है\n\nExample: `जबकि (i < 10) \x7b ... \x7d`"
      "जबकि ($\x7b1\x7d) \x7b\n\t$\x7b2\x7d\n\x7d",
   rawEntry "के लिए" .control ""
      "for loop"
      "For loop - निर्धारित संख्या में लूप\n\nExample: `के लिए (संख्या i = 0; i < 10; i++) \x7b ... \x7d`"
      "के लिए (संख्या $\x7b1:i\x7d = 0; $\x7b1:i\x7d < $\x7b2:10\x7d; $\x7b1:i\x7d++) \x7b\n\t$\x7b3\x7d\n\x7d",
   rawEntry "वापसी" .control ""
      "return statement"
      "Return statement - मान वापस करने के लिए\n\nExample: `वापसी result;`"
      "वापसी $\x7b1\x7d;",
   rawEntry "संख्या" .type ""
      "integer type"
      "Integer type - पूर्ण संख्या\n\nExample: `संख्या age = 25;`"
      "संख्या $\x7b1:variableName\x7d = $\x7b2:0\x7d;",
   rawEntry "दशमलव" .type ""
      "decimal type"
      "Decimal/Float type - दशमलव संख्या\n\nExample: `दशमलव price = 99.99;`"
      "दशमलव $\x7b1:variableName\x7d = $\x7b2:0.0\x7d;",
   rawEntry "स्ट्रिंग" .type ""
      "string type"
      "String type - टेक्स्ट\n\nExample: `स्ट्रिंग name = \"राहुल\";`"
      "स्ट्रिंग $\x7b1:variableName\x7d = \"$\x7b2:value\x7d\";",
   rawEntry "बूलियन" .type ""
      "boolean type"
      "Boolean type - सत्य/असत्य\n\nExample: `बूलियन isActive = true;`"
      "बूलियन $\x7b1:variableName\x7d = $\x7b2:true\x7d;",
   rawEntry "चार" .type ""
      "character type"
      "Character type - एक अक्षर\n\nExample: `चार grade = 'A';`"
      "चार $\x7b1:variableName\x7d = '$\x7b2:a\x7d';",
   rawEntry "क्लास" .oop "class"
      "class definition"
      "Class definition - क्लास बनाने के लिए\n\nExample: `क्लास Student \x7b ... \x7d`"
      "क्लास $\x7b1:ClassName\x7d \x7b\n\t$\x7b2\x7d\n\x7d",
   rawEntry "निजी" .oop ""
      "private modifier"
      "Private access modifier - केवल इसी क्लास में उपलब्ध"
      "निजी ",
   rawEntry "संरक्षित" .oop ""
      "protected modifier"
      "Protected access modifier - इस क्लास और उसकी उप-क्लासों में उपलब्ध"
      "संरक्षित ",
   rawEntry "सार्वजनिक" .oop ""
      "public modifier"
      "Public access modifier - सभी जगह उपलब्ध"
      "सार्वजनिक ",
   rawEntry "स्टैटिक" .oop ""
      "static modifier"
      "Static modifier - क्लास स्तर पर उपलब्ध"
      "स्टैटिक ",
   rawEntry "कोशिश" .control ""
      "try block"
      "Try block - त्रुटि हैंडलिंग के लिए\n\nExample: `कोशिश \x7b ... \x7d पकड़ना \x7b ... \x7d`"
      "कोशिश \x7b\n\t$\x7b1\x7d\n\x7d पकड़ना ($\x7b2:Exception\x7d $\x7b3:e\x7d) \x7b\n\t$\x7b4\x7d\n\x7d",
   rawEntry "पकड़ना" .control ""
      "catch block"
      "Catch block - त्रुटि को पकड़ने के लिए"
      "पकड़ना ($\x7b1:Exception\x7d $\x7b2:e\x7d) \x7b\n\t$\x7b3\x7d\n\x7d",
   rawEntry "अंततः" .control ""
      "finally block"
      "Finally block - हमेशा चलने वाला कोड"
      "अंततः \x7b\n\t$\x7b1\x7d\n\x7d"]

/-- The catalog that comes with the workbench. -/
def shipped : Catalog := (build shippedEntries).toOption.getD ⟨[]⟩

end Catalog

end DhrWorkbench
