import JsxPreview.Path.Basic

/-! # The renderer inside a bundle

The reserved specifier stands for one module with a fixed text, whatever lies in its place. -/
set_option autoImplicit false
namespace JsxPreview.Bundle

def rendererLines : List String :=
  ["// Canonical renderer bundled for every template that imports the reserved",
   "// render module. Turns an element tree into an HTML document string.",
   "import \x7b Fragment \x7d from \"react\";",
   "",
   "const ELEMENT = Symbol.for(\"react.element\");",
   "const FRAGMENT = Symbol.for(\"react.fragment\");",
   "const PROVIDER = Symbol.for(\"react.provider\");",
   "const CONTEXT = Symbol.for(\"react.context\");",
   "",
   "const DOCTYPE =",
   "  '<!DOCTYPE html PUBLIC \"-//W3C//DTD XHTML 1.0 Transitional//EN\" \"http://www.w3.org/TR/xhtml1/DTD/xhtml1-transitional.dtd\">';",
   "",
   "const VOID_ELEMENTS = new Set([",
   "  \"area\", \"base\", \"br\", \"col\", \"embed\", \"hr\", \"img\", \"input\",",
   "  \"link\", \"meta\", \"param\", \"source\", \"track\", \"wbr\",",
   "]);",
   "",
   "const ATTRIBUTE_ALIASES = \x7b",
   "  className: \"class\",",
   "  htmlFor: \"for\",",
   "  httpEquiv: \"http-equiv\",",
   "  acceptCharset: \"accept-charset\",",
   "\x7d;",
   "",
   "function escapeText(value) \x7b",
   "  return String(value)",
   "    .replace(/&/g, \"&amp;\")",
   "    .replace(/</g, \"&lt;\")",
   "    .replace(/>/g, \"&gt;\");",
   "\x7d",
   "",
   "function escapeAttribute(value) \x7b",
   "  return escapeText(value).replace(/\"/g, \"&quot;\");",
   "\x7d",
   "",
   "function hyphenate(name) \x7b",
   "  return name.replace(/[A-Z]/g, (c) => \"-\" + c.toLowerCase());",
   "\x7d",
   "",
   "function styleToString(style) \x7b",
   "  return Object.keys(style)",
   "    .filter((key) => style[key] != null && style[key] !== \"\")",
   "    .map((key) => hyphenate(key) + \":\" + style[key])",
   "    .join(\";\");",
   "\x7d",
   "",
   "function renderAttributes(props) \x7b",
   "  let out = \"\";",
   "  for (const name of Object.keys(props)) \x7b",
   "    if (name === \"children\" || name === \"dangerouslySetInnerHTML\" || name === \"key\" || name === \"ref\") \x7b",
   "      continue;",
   "    \x7d",
   "    const value = props[name];",
   "    if (value == null || value === false || typeof value === \"function\") \x7b",
   "      continue;",
   "    \x7d",
   "    const attribute = ATTRIBUTE_ALIASES[name] || name;",
   "    if (name === \"style\" && typeof value === \"object\") \x7b",
   "      const css = styleToString(value);",
   "      if (css) out += \x60 style=\"$\x7bescapeAttribute(css)\x7d\"\x60;",
   "      continue;",
   "    \x7d",
   "    if (value === true) \x7b",
   "      out += \" \" + attribute;",
   "      continue;",
   "    \x7d",
   "    out += \x60 $\x7battribute\x7d=\"$\x7bescapeAttribute(value)\x7d\"\x60;",
   "  \x7d",
   "  return out;",
   "\x7d",
   "",
   "async function renderNode(node) \x7b",
   "  if (node == null || typeof node === \"boolean\") return \"\";",
   "  if (typeof node === \"string\" || typeof node === \"number\" || typeof node === \"bigint\") \x7b",
   "    return escapeText(node);",
   "  \x7d",
   "  if (Array.isArray(node)) \x7b",
   "    let out = \"\";",
   "    for (const child of node) out += await renderNode(child);",
   "    return out;",
   "  \x7d",
   "  if (typeof node.then === \"function\") return renderNode(await node);",
   "  if (node.$$typeof !== ELEMENT) return escapeText(String(node));",
   "",
   "  const \x7b type, props \x7d = node;",
   "  if (type === Fragment || type === FRAGMENT) return renderNode(props.children);",
   "",
   "  if (type && type.$$typeof === PROVIDER) \x7b",
   "    const context = type._context;",
   "    const previous = context._currentValue;",
   "    context._currentValue = props.value;",
   "    try \x7b",
   "      return await renderNode(props.children);",
   "    \x7d finally \x7b",
   "      context._currentValue = previous;",
   "    \x7d",
   "  \x7d",
   "  if (type && type.$$typeof === CONTEXT) \x7b",
   "    return renderNode(props.children(type._context._currentValue));",
   "  \x7d",
   "",
   "  if (typeof type === \"function\") \x7b",
   "    const isClass = type.prototype && typeof type.prototype.render === \"function\";",
   "    const rendered = isClass ? new type(props).render() : type(props);",
   "    return renderNode(await rendered);",
   "  \x7d",
   "",
   "  if (typeof type === \"string\") \x7b",
   "    const attributes = renderAttributes(props);",
   "    if (VOID_ELEMENTS.has(type)) return \x60<$\x7btype\x7d$\x7battributes\x7d/>\x60;",
   "    const html = props.dangerouslySetInnerHTML;",
   "    const inner = html && html.__html != null ? String(html.__html) : await renderNode(props.children);",
   "    return \x60<$\x7btype\x7d$\x7battributes\x7d>$\x7binner\x7d</$\x7btype\x7d>\x60;",
   "  \x7d",
   "",
   "  throw new TypeError(\"Unsupported element type: \" + String(type));",
   "\x7d",
   "",
   "function toPlainText(html) \x7b",
   "  const lines = html",
   "    .replace(/<(style|script|head|title)[^>]*>[\\s\\S]*?<\\/\\1>/gi, \"\")",
   "    .replace(/<br\\s*\\/?>/gi, \"\\n\")",
   "    .replace(/<a [^>]*href=\"([^\"]*)\"[^>]*>([\\s\\S]*?)<\\/a>/gi, \"$2 [$1]\")",
   "    .replace(/<\\/(p|div|h[1-6]|tr|li|table|section)>/gi, \"\\n\")",
   "    .replace(/<[^>]+>/g, \"\")",
   "    .replace(/&nbsp;/g, \" \")",
   "    .replace(/&lt;/g, \"<\")",
   "    .replace(/&gt;/g, \">\")",
   "    .replace(/&quot;/g, '\"')",
   "    .replace(/&amp;/g, \"&\")",
   "    .split(\"\\n\")",
   "    .map((line) => line.trim());",
   "  return lines",
   "    .filter((line, i) => line !== \"\" || (i > 0 && lines[i - 1] !== \"\"))",
   "    .join(\"\\n\")",
   "    .trim();",
   "\x7d",
   "",
   "function prettify(html) \x7b",
   "  let depth = 0;",
   "  return html",
   "    .replace(/>\\s*</g, \"><\")",
   "    .split(/(?=<)/)",
   "    .map((part) => \x7b",
   "      if (part.startsWith(\"</\")) depth = Math.max(depth - 1, 0);",
   "      const line = \"  \".repeat(depth) + part;",
   "      const opens = !part.startsWith(\"</\") && !part.startsWith(\"<!\") && !part.endsWith(\"/>\");",
   "      if (opens && !part.includes(\"</\")) depth += 1;",
   "      return line;",
   "    \x7d)",
   "    .join(\"\\n\");",
   "\x7d",
   "",
   "export async function renderAsync(element, options = \x7b\x7d) \x7b",
   "  const markup = await renderNode(element);",
   "  if (options.plainText) return toPlainText(markup);",
   "  const document = DOCTYPE + markup;",
   "  return options.pretty ? prettify(document) : document;",
   "\x7d",
   "",
   "export const render = renderAsync;"]

def rendererText : String := String.join (rendererLines.map (· ++ "\n"))

def rendererPath (root : Path) : Path := root.join "node_modules/@preview/render/index.js"

end JsxPreview.Bundle
