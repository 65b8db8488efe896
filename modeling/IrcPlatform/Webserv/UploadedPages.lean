import IrcPlatform.Webserv.Uploads

/-!
# Uploaded pages

The default configuration reads its upload directory below the root of the server too, where
a page that a client has uploaded is shown as a page.
-/

namespace IrcPlatform.Webserv

open Std

/-- The text of `default.conf`. -/
def defaultConf : Bytes :=
  ["server \x7b", "    listen 0.0.0.0:8080;", "    root www;", "    index index.html;",
    "    client_max_body_size 10485760;", "    autoindex off;", "    allow_methods GET;",
    "    error_page 404 www/errors/404.html;", "", "    location /files \x7b",
    "        root www/files;", "        index index.html;", "        autoindex on;",
    "        allow_methods GET DELETE;", "    \x7d", "", "    location /upload \x7b",
    "        root www/uploads;", "        index index.html;", "        autoindex on;",
    "        allow_methods GET POST DELETE;", "        upload_dir www/uploads;", "    \x7d", "",
    "    location /health \x7b", "        root www/health;", "        index index.html;",
    "        autoindex off;", "        allow_methods GET;", "    \x7d", "",
    "    location /admin \x7b", "        root www/admin;", "        index index.html;",
    "        autoindex off;", "        allow_methods GET;", "    \x7d", "",
    "    location /chat \x7b", "        root www/chat;", "        index index.html;",
    "        autoindex off;", "        allow_methods GET;", "    \x7d", "",
    "    location /cgi-bin \x7b", "        root www/cgi-bin;", "        allow_methods GET POST;",
    "        cgi_handler .py /usr/bin/python3;", "        cgi_handler .php /usr/bin/php-cgi;",
    "        cgi_timeout 3;", "    \x7d", "\x7d"].flatMap fun line => ascii line ++ [10]

def defaultServer : ServerConfig :=
  match Config.parse defaultConf with
  | .ok (server :: _) => server
  | _ => {}

/-- A client uploads a page. -/
def uploadPage : Exchange where
  server := defaultServer
  raw := ascii "POST /upload HTTP/1.1\r\nHost: a\r\nX-Filename: x.html\r\n" ++
    ascii "Content-Length: 8\r\n\r\n<script>"

/-- The page is asked for below the root of the server. -/
def readPage : Exchange where
  server := defaultServer
  raw := ascii "GET /uploads/x.html HTTP/1.1\r\nHost: a\r\n\r\n"

/-- The page as a page. -/
def shownPage : Response where
  status := 200
  headers := (∅ : ExtTreeMap Bytes Bytes).insert (ascii "Content-Type") htmlType
  body := ascii "<script>"

/-- The default configuration is accepted, and shows an uploaded page as a page. -/
theorem run_shows_uploadedPage :
    Config.parse defaultConf = .ok [defaultServer] ∧
      Site.isCreated (answer defaultSite.disk uploadPage).1 ∧
      ((siteMachine [defaultServer]).performAll [uploadPage, readPage] defaultSite).isSome ∧
      (answer (defaultSite.perform uploadPage).disk readPage).1 = .response shownPage ∧
      ¬ (siteMachine [defaultServer]).EveryStep ServesDownloads [uploadPage, readPage]
        defaultSite := by
  decide +kernel

end IrcPlatform.Webserv
